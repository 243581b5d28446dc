import CommonUtils.Network.UrlParser

namespace CommonUtils.Network.Request

abbrev Headers := List (Text × Text)

structure Response where
  status : Int
  text : String
  headers : Headers

/-- A call of `HTTPSRequest` if `tls` and of `HTTPRequest` otherwise. -/
structure Call where
  tls : Bool
  method : String
  host : Text
  port : Text
  target : Text
  body : Text
  headers : Headers
deriving DecidableEq

section Client

variable (network : Call → Response)

def httpRequest (method : String) (host port target body : Text) (headers : Headers) :
    List Call × Response :=
  let call : Call := { tls := false, method, host, port, target, body, headers }
  ([call], network call)

def httpsRequest (method : String) (host port target body : Text) (headers : Headers) :
    List Call × Response :=
  let call : Call := { tls := true, method, host, port, target, body, headers }
  ([call], network call)

def request (method : String) (host port target body : Text) (headers : Headers) :
    List Call × Response :=
  if port = httpsPort then httpsRequest network method host port target body headers
  else httpRequest network method host port target body headers

def get (url : Text) (headers : Headers) : List Call × Response :=
  match UrlParser.parse url with
  | .ok parser => request network "GET" parser.host parser.port parser.target [] headers
  | .error what => ([], { status := -1, text := what, headers := [] })

def post (url body : Text) (headers : Headers) : List Call × Response :=
  match UrlParser.parse url with
  | .ok parser => request network "POST" parser.host parser.port parser.target body headers
  | .error what => ([], { status := -1, text := what, headers := [] })

end Client

/-- One call is made, through TLS exactly if the parsed protocol is `https`. -/
def TlsAsAsked (parser : UrlParser) (calls : List Call) : Prop :=
  calls.map Call.tls = [decide (parser.protocol = https)]

/-- The URL names no port, or `443` exactly with the scheme `https`. -/
def PortMatchesScheme (url : Text) : Prop :=
  ∀ port, explicitPort url = some port → (port = httpsPort ↔ scheme url = https)

variable (network : Call → Response)

theorem request_tls (method : String) (host port target body : Text) (headers : Headers) :
    (request network method host port target body headers).1.map Call.tls =
      [decide (port = httpsPort)] := by
  unfold request
  split
  · rename_i tls
    simp [httpsRequest, tls]
  · rename_i plain
    simp [httpRequest, plain]

theorem defaultPort_tls (protocol : Text) :
    UrlParser.defaultPort protocol = httpsPort ↔ protocol = https := by
  unfold UrlParser.defaultPort
  split
  · simp [*]
  · rename_i other
    simp only [other, iff_false]
    decide

theorem port_tls_iff {url : Text} {parser : UrlParser}
    (accepted : UrlParser.parse url = .ok parser) :
    (parser.port = httpsPort ↔ parser.protocol = https) ↔ PortMatchesScheme url := by
  rcases UrlParser.parse_spec accepted with ⟨protocol, port⟩
  rw [protocol, port]
  unfold PortMatchesScheme
  cases explicitPort url with
  | none => simp [defaultPort_tls]
  | some named => simp

theorem tlsAsAsked_request {parser : UrlParser} (method : String) (host target body : Text)
    (headers : Headers) :
    TlsAsAsked parser (request network method host parser.port target body headers).1 ↔
      (parser.port = httpsPort ↔ parser.protocol = https) := by
  unfold TlsAsAsked
  rw [request_tls, List.cons.injEq, decide_eq_decide]
  simp

theorem tls_exact {url : Text} {parser : UrlParser} (accepted : UrlParser.parse url = .ok parser)
    (body : Text) (headers : Headers) :
    (TlsAsAsked parser (get network url headers).1 ↔ PortMatchesScheme url) ∧
      (TlsAsAsked parser (post network url body headers).1 ↔ PortMatchesScheme url) := by
  unfold get post
  rw [accepted, ← port_tls_iff accepted]
  exact ⟨tlsAsAsked_request network "GET" parser.host parser.target [] headers,
    tlsAsAsked_request network "POST" parser.host parser.target body headers⟩

def answering (_ : Call) : Response where
  status := 200
  text := "OK"
  headers := []

theorem tls_exact_default_port :
    TlsAsAsked ⟨https, "host".toList, httpsPort, "/".toList⟩
      (get answering "https://host/".toList []).1 := by
  have matching : PortMatchesScheme "https://host/".toList := by
    intro port named
    rw [show explicitPort "https://host/".toList = none by decide] at named
    cases named
  exact (tls_exact answering (by rfl) [] []).1.mpr matching

/-- `https` with another port is sent in the clear. -/
theorem https_in_the_clear :
    ¬ ∀ (network : Call → Response) (url body : Text) (headers : Headers) (parser : UrlParser),
      UrlParser.parse url = .ok parser →
        TlsAsAsked parser (get network url headers).1 ∧
          TlsAsAsked parser (post network url body headers).1 := by
  intro always
  have sent := always answering "https://host:8443/".toList [] []
    ⟨https, "host".toList, "8443".toList, "/".toList⟩ (by rfl)
  exact absurd sent.1 (by unfold TlsAsAsked; decide)

end CommonUtils.Network.Request
