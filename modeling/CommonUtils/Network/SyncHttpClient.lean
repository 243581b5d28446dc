import CommonUtils.Network.UrlParser
import CommonUtils.Library.Members
import Mathlib.Data.Char
import Mathlib.Data.List.Lex

/-! `SyncHttpClient`: the two transports, from the resolved endpoints to the response that
is handed back. An operation of the network gives `none` or an error, named by its text. -/

namespace CommonUtils.Network.SyncHttpClient

def nul : Char := '\x00'

abbrev Headers := List (Text × Text)

structure Response where
  status : Int
  text : Text
  headers : Headers

/-- `fields` are the names and values that `set` is called with. -/
structure HTTPRequest where
  method : Text
  target : Text
  version : Nat
  fields : List (Text × Text)
  body : Text
  prepared : Bool

/-- `fields` are in the order of the iteration, and a name may come more than once. -/
structure HTTPResponse where
  result : Nat
  fields : List (Text × Text)
  body : Text

/-- What a resolver gives when it throws nothing. -/
structure Results (ε : Type) where
  first : ε
  rest : List ε

namespace Results

variable {ε : Type}

def endpoints (results : Results ε) : List ε := results.first :: results.rest

end Results

inductive ShutdownError where
  | notConnected
  | eof
  | streamTruncated
  | other (what : Text)

def ShutdownError.what : ShutdownError → Text
  | .notConnected => "not connected".toList
  | .eof => "end of file".toList
  | .streamTruncated => "stream truncated".toList
  | .other what => what

structure Environment (ε : Type) where
  agent : Text
  resolve : Text → Text → Except Text (Results ε)
  connect : ε → Option Text
  /-- The connect of a stream to a range of endpoints. -/
  connectRange : List ε → Except Text ε
  setHostName : Text → Option Text
  handshake : ε → Option Text
  exchange : ε → HTTPRequest → Except Text HTTPResponse
  shutdown : ε → Option ShutdownError

structure Call where
  method : Text
  host : Text
  port : Text
  target : Text
  body : Text
  headers : Headers

def throwIf : Option Text → Except Text Unit
  | none => .ok ()
  | some what => .error what

section Connect

variable {ε : Type}

def httpConnect (connectRange : List ε → Except Text ε) (results : Results ε) : Except Text ε :=
  connectRange results.endpoints

/-- `socket.connect(results->endpoint())`. -/
def httpsConnect (connect : ε → Option Text) (results : Results ε) : Except Text ε :=
  match connect results.first with
  | none => .ok results.first
  | some what => .error what

end Connect

section Client

variable {ε : Type} (net : Environment ε) (call : Call)

def request : HTTPRequest where
  method := call.method
  target := call.target
  version := 11
  fields := ("Host".toList, call.host) :: ("User-Agent".toList, net.agent) :: call.headers
  body := call.body
  prepared := !call.body.isEmpty

/-- `response.text` is assigned from a pointer, and the fields go into a map. -/
def convert (res : HTTPResponse) : Response where
  status := res.result
  text := res.body.takeWhile (· ≠ nul)
  headers := Members.assignAll res.fields

def failed (what : Text) (headers : Headers) : Response := { status := -1, text := what, headers }

def httpRead : Except Text (ε × HTTPResponse) := do
  let results ← net.resolve call.host call.port
  let endpoint ← httpConnect net.connectRange results
  let res ← net.exchange endpoint (request net call)
  return (endpoint, res)

def httpsRead : Except Text (ε × HTTPResponse) := do
  throwIf (net.setHostName call.host)
  let results ← net.resolve call.host call.port
  let endpoint ← httpsConnect net.connect results
  throwIf (net.handshake endpoint)
  let res ← net.exchange endpoint (request net call)
  return (endpoint, res)

def httpShutdown (endpoint : ε) : Option Text :=
  match net.shutdown endpoint with
  | none | some .notConnected => none
  | some error => some error.what

def httpsShutdown (endpoint : ε) : Option Text :=
  match net.shutdown endpoint with
  -- a peer may end the stream without the closing of TLS
  | none | some .eof | some .streamTruncated => none
  | some error => some error.what

/-- The response was filled before the shutdown. -/
def httpRequest : Response :=
  match httpRead net call with
  | .error what => failed what []
  | .ok (endpoint, res) =>
      match httpShutdown net endpoint with
      | none => convert res
      | some what => failed what (convert res).headers

def httpsRequest : Response :=
  match httpsRead net call with
  | .error what => failed what []
  | .ok (endpoint, res) =>
      match httpsShutdown net endpoint with
      | none => convert res
      | some what => failed what (convert res).headers

end Client

section Reaching

variable {ε : Type}

/-- Both transports reach the host, and that exactly where an endpoint accepts. -/
structure Agree (connect : ε → Option Text) (connectRange : List ε → Except Text ε)
    (results : Results ε) : Prop where
  same : (httpsConnect connect results).isOk ↔ (httpConnect connectRange results).isOk
  reached : (httpConnect connectRange results).isOk ↔
    ∃ endpoint ∈ results.endpoints, connect endpoint = none

/-- The connect to a range gives an endpoint of the range that accepts, and throws only where
none does. -/
structure TriesEach (connect : ε → Option Text) (connectRange : List ε → Except Text ε) :
    Prop where
  accepted : ∀ endpoints endpoint, connectRange endpoints = .ok endpoint →
    endpoint ∈ endpoints ∧ connect endpoint = none
  refused : ∀ endpoints what, connectRange endpoints = .error what →
    ∀ endpoint ∈ endpoints, connect endpoint ≠ none

section Parameter

variable {connect : ε → Option Text} {connectRange : List ε → Except Text ε}

theorem httpConnect_isOk_iff (tries : TriesEach connect connectRange) (results : Results ε) :
    (httpConnect connectRange results).isOk ↔
      ∃ endpoint ∈ results.endpoints, connect endpoint = none := by
  cases attempt : httpConnect connectRange results with
  | ok endpoint =>
      have accepted := tries.accepted results.endpoints endpoint attempt
      exact ⟨fun _ => ⟨endpoint, accepted⟩, fun _ => rfl⟩
  | error what =>
      have refused := tries.refused results.endpoints what attempt
      constructor
      · intro succeeded
        exact absurd succeeded Bool.false_ne_true
      · rintro ⟨endpoint, member, accepts⟩
        exact absurd accepts (refused endpoint member)

theorem httpsConnect_isOk_iff (connect : ε → Option Text) (results : Results ε) :
    (httpsConnect connect results).isOk ↔ connect results.first = none := by
  cases attempt : connect results.first with
  | none => simp [httpsConnect, attempt, Except.isOk, Except.toBool]
  | some what => simp [httpsConnect, attempt, Except.isOk, Except.toBool]

theorem connect_agree_iff (tries : TriesEach connect connectRange) (results : Results ε) :
    Agree connect connectRange results ↔ connect results.first = none ∨
      ∀ endpoint ∈ results.rest, connect endpoint ≠ none := by
  have https := httpsConnect_isOk_iff connect results
  have http := httpConnect_isOk_iff tries results
  constructor
  · intro agree
    by_contra neither
    push Not at neither
    rcases neither with ⟨refused, endpoint, later, accepts⟩
    have reached := http.mpr ⟨endpoint, List.mem_cons_of_mem _ later, accepts⟩
    exact refused (https.mp (agree.same.mpr reached))
  · intro condition
    refine ⟨?_, http⟩
    rw [https, http]
    constructor
    · intro accepts
      exact ⟨results.first, List.mem_cons_self, accepts⟩
    · rintro ⟨endpoint, member, accepts⟩
      rcases List.mem_cons.mp member with first | later
      · rwa [← first]
      · rcases condition with already | none
        · exact already
        · exact absurd accepts (none endpoint later)

end Parameter

/-- One attempt after another; the last error is thrown. -/
def connectInOrder (connect : ε → Option Text) (last : Text) : List ε → Except Text ε
  | [] => .error last
  | endpoint :: rest =>
      match connect endpoint with
      | none => .ok endpoint
      | some what => connectInOrder connect what rest

theorem triesEach_connectInOrder (connect : ε → Option Text) (last : Text) :
    TriesEach connect (connectInOrder connect last) := by
  constructor
  · intro endpoints endpoint connected
    induction endpoints generalizing last with
    | nil => simp [connectInOrder] at connected
    | cons next rest ih =>
        cases attempt : connect next with
        | none =>
            simp only [connectInOrder, attempt, Except.ok.injEq] at connected
            rw [← connected]
            exact ⟨List.mem_cons_self, attempt⟩
        | some what =>
            simp only [connectInOrder, attempt] at connected
            have found := ih what connected
            exact ⟨List.mem_cons_of_mem _ found.1, found.2⟩
  · intro endpoints what failed endpoint member
    induction endpoints generalizing last with
    | nil => simp at member
    | cons next rest ih =>
        cases attempt : connect next with
        | none => simp [connectInOrder, attempt] at failed
        | some error =>
            simp only [connectInOrder, attempt] at failed
            rcases List.mem_cons.mp member with rfl | later
            · simp [attempt]
            · exact ih error failed later

def oneAccepts : Bool → Option Text := fun accepts => if accepts then none else some []

theorem connect_agree_oneAccepts :
    TriesEach oneAccepts (connectInOrder oneAccepts []) ∧
      Agree oneAccepts (connectInOrder oneAccepts []) ⟨true, [false]⟩ :=
  ⟨triesEach_connectInOrder oneAccepts [],
    (connect_agree_iff (triesEach_connectInOrder oneAccepts []) ⟨true, [false]⟩).mpr
      (Or.inl rfl)⟩

/-- A refusing endpoint before one that accepts. -/
theorem second_endpoint_unreached :
    ¬ ∀ (connect : Bool → Option Text) (connectRange : List Bool → Except Text Bool),
      TriesEach connect connectRange → ∀ results, Agree connect connectRange results := by
  intro always
  have agree := always oneAccepts (connectInOrder oneAccepts [])
    (triesEach_connectInOrder oneAccepts []) ⟨false, [true]⟩
  exact absurd (agree.same.mpr rfl) (by decide)

end Reaching

section Conversion

inductive Transport where
  | http
  | https

namespace Transport

variable {ε : Type} (net : Environment ε) (call : Call)

def request : Transport → Response
  | .http => httpRequest net call
  | .https => httpsRequest net call

def read : Transport → Except Text (ε × HTTPResponse)
  | .http => httpRead net call
  | .https => httpsRead net call

def shutdown (endpoint : ε) : Transport → Option Text
  | .http => httpShutdown net endpoint
  | .https => httpsShutdown net endpoint

/-- The response was read and nothing was thrown. -/
def Exchanged (transport : Transport) (res : HTTPResponse) : Prop :=
  ∃ endpoint, transport.read net call = .ok (endpoint, res) ∧
    transport.shutdown net endpoint = none

end Transport

/-- The status, the body byte for byte and every value under its name. -/
structure Faithful (res : HTTPResponse) (response : Response) : Prop where
  status : response.status = res.result
  text : response.text = res.body
  headers : ∀ field ∈ res.fields, Members.find field.1 response.headers = some field.2

def SingleValued (fields : List (Text × Text)) : Prop :=
  ∀ first ∈ fields, ∀ second ∈ fields, first.1 = second.1 → first.2 = second.2

variable {ε : Type} {net : Environment ε} {call : Call} {transport : Transport}
  {res : HTTPResponse}

theorem request_of_exchanged (exchanged : transport.Exchanged net call res) :
    transport.request net call = convert res := by
  rcases exchanged with ⟨endpoint, read, closed⟩
  cases transport with
  | http =>
      have read : httpRead net call = .ok (endpoint, res) := read
      have closed : httpShutdown net endpoint = none := closed
      simp only [Transport.request, httpRequest, read, closed]
  | https =>
      have read : httpsRead net call = .ok (endpoint, res) := read
      have closed : httpsShutdown net endpoint = none := closed
      simp only [Transport.request, httpsRequest, read, closed]

theorem response_faithful_iff (exchanged : transport.Exchanged net call res) :
    Faithful res (transport.request net call) ↔ nul ∉ res.body ∧ SingleValued res.fields := by
  rw [request_of_exchanged exchanged]
  constructor
  · intro faithful
    exact ⟨Search.takeWhile_ne_eq_self_iff.mp faithful.text,
      (Members.find_assignAll_iff res.fields).mp faithful.headers⟩
  · rintro ⟨free, single⟩
    exact ⟨rfl, Search.takeWhile_ne_eq_self_iff.mpr free,
      (Members.find_assignAll_iff res.fields).mpr single⟩

def answering (res : HTTPResponse) : Environment Unit where
  agent := []
  resolve _ _ := .ok ⟨(), []⟩
  connect _ := none
  connectRange _ := .ok ()
  setHostName _ := none
  handshake _ := none
  exchange _ _ := .ok res
  shutdown _ := none

def anyCall : Call where
  method := ['G', 'E', 'T']
  host := ['h']
  port := ['8', '0']
  target := ['/']
  body := []
  headers := []

def twoFields : HTTPResponse where
  result := 200
  fields := [(['A'], ['1']), (['B'], ['2'])]
  body := ['o', 'k']

theorem response_faithful_twoFields :
    Faithful twoFields (Transport.http.request (answering twoFields) anyCall) ∧
      Faithful twoFields (Transport.https.request (answering twoFields) anyCall) := by
  have kept : nul ∉ twoFields.body ∧ SingleValued twoFields.fields := by
    unfold SingleValued
    decide
  exact ⟨(response_faithful_iff ⟨(), rfl, rfl⟩).mpr kept,
    (response_faithful_iff ⟨(), rfl, rfl⟩).mpr kept⟩

def twoCookies : HTTPResponse where
  result := 200
  fields := [(['C'], ['1']), (['C'], ['2'])]
  body := ['a', nul, 'b']

/-- The body ends at its NUL, and the second value of a name replaces the first. -/
theorem response_loses :
    (Transport.http.request (answering twoCookies) anyCall).text = ['a'] ∧
      (Transport.http.request (answering twoCookies) anyCall).headers = [(['C'], ['2'])] ∧
      ¬ ∀ (transport : Transport) (net : Environment Unit) (call : Call) (res : HTTPResponse),
        transport.Exchanged net call res → Faithful res (transport.request net call) := by
  have cut : (Transport.http.request (answering twoCookies) anyCall).text = ['a'] := by decide
  refine ⟨cut, by decide, ?_⟩
  intro always
  have faithful := always .http (answering twoCookies) anyCall twoCookies ⟨(), rfl, rfl⟩
  exact absurd (cut.symm.trans faithful.text) (by decide)

end Conversion

end CommonUtils.Network.SyncHttpClient
