import CommonUtils.Network.UrlParser
import Mathlib.Logic.Function.Basic

namespace CommonUtils.Network.HTTPS

def nul : Char := '\x00'

def tokenChar (c : Char) : Bool :=
  c.isAlphanum ||
    c ∈ ['!', '#', '$', '%', '&', '\x27', '*', '+', '-', '.', '^', '_', '\x60', '|', '~']

structure Token where
  text : Text
  nonempty : text ≠ []
  chars : ∀ c ∈ text, tokenChar c
  deriving DecidableEq

/-- `behind` are the bytes of the buffer from the end of `method_string()` on, of which the
first is NUL for a standard method. -/
structure HTTPRequest where
  method : Token
  standard : Bool
  behind : Text
  terminated : standard → behind.head? = some nul
  target : Text
  deriving DecidableEq

structure HTTPResponse where
  result : Nat
  contentType : Option Text
  body : Text
  contentLength : Option Nat

/-- A handler is known by what it is, and calling it is left to it. An answer is missing where
`prepare_payload` throws. -/
inductive Handled (η : Type) where
  | invoked (handler : η)
  | answered (response : Option HTTPResponse)

structure Router (η : Type) where
  routes : Text → Option η

def routeKey (method path : Text) : Text := method ++ [':'] ++ path

/-- What `data()` denotes as a C string. -/
def HTTPRequest.methodString (req : HTTPRequest) : Text :=
  (req.method.text ++ req.behind).takeWhile (· ≠ nul)

/-- What `Session::RequestHandler` begins with. -/
def okResponse : HTTPResponse where
  result := 200
  contentType := none
  body := []
  contentLength := none

def bodiless (result : Nat) : Prop := 100 ≤ result ∧ result ≤ 199 ∨ result = 204 ∨ result = 304

/-- What `prepare_payload` promises: it throws nothing at a response that may have a body, and
leaves all but the length as it is. -/
structure Prepares (preparePayload : HTTPResponse → Option HTTPResponse) : Prop where
  returns : ∀ res, ¬ bodiless res.result → (preparePayload res).isSome
  length : ∀ res prepared, preparePayload res = some prepared → ¬ bodiless res.result →
    prepared.contentLength = some res.body.length
  rest : ∀ res prepared, preparePayload res = some prepared →
    prepared.result = res.result ∧ prepared.contentType = res.contentType ∧
      prepared.body = res.body

namespace Router

variable {η : Type} (preparePayload : HTTPResponse → Option HTTPResponse)

def empty : Router η := { routes := fun _ => none }

def addRoute (router : Router η) (method path : Text) (handler : η) : Router η where
  routes := Function.update router.routes (routeKey method path) (some handler)

def getRoute (router : Router η) (method path : Text) : Option η :=
  router.routes (routeKey method path)

def notFoundHandler (res : HTTPResponse) : Option HTTPResponse :=
  preparePayload { res with
    result := 404
    contentType := some "text/plain".toList
    body := "404 Not Found".toList }

def handleRequest (router : Router η) (req : HTTPRequest) (res : HTTPResponse) : Handled η :=
  match router.routes (routeKey req.methodString req.target) with
  | none => .answered (notFoundHandler preparePayload res)
  | some handler => .invoked handler

end Router

/-- `HTTPServer::AddRoute`, with the path in front. -/
def HTTPServer.addRoute {η : Type} (router : Router η) (path method : Text) (handler : η) :
    Router η :=
  router.addRoute method path handler

inductive Registration (η : Type) where
  | router (method : Token) (path : Text) (handler : η)
  | server (path : Text) (method : Token) (handler : η)

namespace Registration

variable {η : Type}

def method : Registration η → Text
  | .router method _ _ | .server _ method _ => method.text

def path : Registration η → Text
  | .router _ path _ | .server path _ _ => path

def handler : Registration η → η
  | .router _ _ handler | .server _ _ handler => handler

def apply (router : Router η) : Registration η → Router η
  | .router method path handler => router.addRoute method.text path handler
  | .server path method handler => HTTPServer.addRoute router path method.text handler

def applyAll (calls : List (Registration η)) : Router η := calls.foldl apply .empty

def latest (calls : List (Registration η)) (method path : Text) : Option η :=
  (calls.reverse.find? fun call => call.method = method ∧ call.path = path).map handler

end Registration

open Registration

variable {η : Type}

structure Exact (preparePayload : HTTPResponse → Option HTTPResponse)
    (calls : List (Registration η)) (req : HTTPRequest) : Prop where
  invokes : ∀ handler res, latest calls req.method.text req.target = some handler →
    (applyAll calls).handleRequest preparePayload req res = .invoked handler
  misses : ∀ res, latest calls req.method.text req.target = none →
    ∃ response, (applyAll calls).handleRequest preparePayload req res = .answered (some response) ∧
      response.result = 404

/-- The bytes that are read as the method's without being its own. -/
def HTTPRequest.overrun (req : HTTPRequest) : Text := req.behind.takeWhile (· ≠ nul)

def spelled (key : Text) : Text × Text :=
  (key.takeWhile (· ≠ ':'), (key.dropWhile (· ≠ ':')).tail)

theorem not_mem_token (token : Token) {c : Char} (other : tokenChar c = false) :
    c ∉ token.text := by
  intro member
  have char := token.chars c member
  rw [other] at char
  cases char

theorem methodString_eq (req : HTTPRequest) :
    req.methodString = req.method.text ++ req.overrun := by
  have free : nul ∉ req.method.text := not_mem_token req.method rfl
  exact Search.append_takeWhile_ne free req.behind

theorem spelled_routeKey {method : Text} (free : ':' ∉ method) (path : Text) :
    spelled (routeKey method path) = (method, path) := by
  have text : routeKey method path = method ++ ':' :: path := by simp [routeKey]
  rw [spelled, text, Search.append_takeWhile_ne free, Search.append_dropWhile_ne free]
  simp

theorem routeKey_spelled {key : Text} (colon : ':' ∈ key) :
    routeKey (spelled key).1 (spelled key).2 = key := by
  induction key with
  | nil => cases colon
  | cons c key ih =>
      by_cases first : c = ':'
      · subst first
        rfl
      · have later : ':' ∈ key := (List.mem_cons.mp colon).resolve_left (Ne.symm first)
        have begins : spelled (c :: key) = (c :: (spelled key).1, (spelled key).2) := by
          simp [spelled, first]
        rw [begins]
        exact congrArg (c :: ·) (ih later)

theorem routeKey_eq_iff {method : Text} (free : ':' ∉ method) (path : Text) {key : Text}
    (colon : ':' ∈ key) :
    routeKey method path = key ↔ method = (spelled key).1 ∧ path = (spelled key).2 := by
  constructor
  · intro same
    rw [← same, spelled_routeKey free]
    exact ⟨rfl, rfl⟩
  · rintro ⟨rfl, rfl⟩
    exact routeKey_spelled colon

theorem apply_routes (router : Router η) (call : Registration η) :
    (call.apply router).routes =
      Function.update router.routes (routeKey call.method call.path) (some call.handler) := by
  cases call <;> rfl

theorem method_free (call : Registration η) : ':' ∉ call.method := by
  cases call with
  | router method path handler => exact not_mem_token method rfl
  | server path method handler => exact not_mem_token method rfl

/-- A key is found exactly where the pair that it spells was registered, with the handler
registered last. -/
theorem routes_applyAll (calls : List (Registration η)) {key : Text} (colon : ':' ∈ key) :
    (applyAll calls).routes key = latest calls (spelled key).1 (spelled key).2 := by
  induction calls using List.reverseRecOn with
  | nil => rfl
  | append_singleton calls call ih =>
      have last : applyAll (calls ++ [call]) = call.apply (applyAll calls) := by
        rw [applyAll, List.foldl_append]
        rfl
      have written := routeKey_eq_iff (method_free call) call.path colon
      rw [last, apply_routes, latest, List.reverse_append, List.reverse_singleton,
        List.singleton_append]
      by_cases same : routeKey call.method call.path = key
      · rw [same, Function.update_self, List.find?_cons_of_pos (by simpa using written.mp same)]
        rfl
      · rw [Function.update_of_ne (Ne.symm same), ih,
          List.find?_cons_of_neg (by simpa using mt written.mpr same)]
        rfl

theorem colon_mem_routeKey (method path : Text) : ':' ∈ routeKey method path := by
  simp [routeKey]

theorem getRoute_applyAll (calls : List (Registration η)) (method : Token) (path : Text) :
    (applyAll calls).getRoute method.text path = latest calls method.text path := by
  rw [Router.getRoute, routes_applyAll calls (colon_mem_routeKey _ _),
    spelled_routeKey (not_mem_token method rfl)]

structure NotFound (response : HTTPResponse) : Prop where
  result : response.result = 404
  contentType : response.contentType = some "text/plain".toList
  body : response.body = "404 Not Found".toList

theorem not_bodiless_notFound : ¬ bodiless 404 := by
  unfold bodiless
  omega

theorem NotFound.prepared {preparePayload : HTTPResponse → Option HTTPResponse}
    (prepares : Prepares preparePayload) {res response : HTTPResponse} (reply : NotFound res)
    (prepared : preparePayload res = some response) : NotFound response := by
  rcases prepares.rest res response prepared with ⟨result, contentType, body⟩
  exact ⟨result.trans reply.result, contentType.trans reply.contentType, body.trans reply.body⟩

theorem notFoundHandler_spec {preparePayload : HTTPResponse → Option HTTPResponse}
    (prepares : Prepares preparePayload) (res : HTTPResponse) :
    ∃ response, Router.notFoundHandler preparePayload res = some response ∧ NotFound response := by
  have returns := prepares.returns { res with
    result := 404
    contentType := some "text/plain".toList
    body := "404 Not Found".toList } not_bodiless_notFound
  rcases Option.isSome_iff_exists.mp returns with ⟨response, prepared⟩
  exact ⟨response, prepared, NotFound.prepared prepares ⟨rfl, rfl, rfl⟩ prepared⟩

theorem exact_iff_routes {preparePayload : HTTPResponse → Option HTTPResponse}
    (prepares : Prepares preparePayload) (calls : List (Registration η)) (req : HTTPRequest) :
    Exact preparePayload calls req ↔
      (applyAll calls).routes (routeKey req.methodString req.target) =
        latest calls req.method.text req.target := by
  constructor
  · intro exact_routes
    cases registered : latest calls req.method.text req.target with
    | none =>
        rcases exact_routes.misses okResponse registered with ⟨response, answered, -⟩
        unfold Router.handleRequest at answered
        split at answered
        · assumption
        · cases answered
    | some handler =>
        have invoked := exact_routes.invokes handler okResponse registered
        unfold Router.handleRequest at invoked
        split at invoked
        · cases invoked
        · cases invoked
          assumption
  · intro found
    constructor
    · intro handler res registered
      rw [Router.handleRequest, found, registered]
    · intro res missing
      rcases notFoundHandler_spec prepares res with ⟨response, answered, reply⟩
      rw [Router.handleRequest, found, missing]
      exact ⟨response, congrArg Handled.answered answered, reply.result⟩

/-- Bytes behind the method lead to what is registered for the pair that is then spelled. -/
theorem handleRequest_exact_iff {preparePayload : HTTPResponse → Option HTTPResponse}
    (prepares : Prepares preparePayload) (calls : List (Registration η)) (req : HTTPRequest) :
    Exact preparePayload calls req ↔ req.overrun = [] ∨
      latest calls (spelled (routeKey (req.method.text ++ req.overrun) req.target)).1
          (spelled (routeKey (req.method.text ++ req.overrun) req.target)).2 =
        latest calls req.method.text req.target := by
  rw [exact_iff_routes prepares, methodString_eq, routes_applyAll calls (colon_mem_routeKey _ _)]
  constructor
  · exact .inr
  · rintro (own | same)
    · rw [own, List.append_nil, spelled_routeKey (not_mem_token req.method rfl)]
    · exact same

def purge : Token where
  text := ['P', 'U', 'R', 'G', 'E']
  nonempty := List.cons_ne_nil _ _
  chars := List.all_eq_true.mp rfl

/-- An extension method, in a buffer where something is left behind it. -/
def purgeRequest : HTTPRequest where
  method := purge
  standard := false
  behind := ['X', nul]
  terminated := Bool.noConfusion
  target := ['/']

def rootRequest : HTTPRequest :=
  { purgeRequest with behind := [nul], terminated := fun _ => rfl }

instance (result : Nat) : Decidable (bodiless result) :=
  inferInstanceAs (Decidable (100 ≤ result ∧ result ≤ 199 ∨ result = 204 ∨ result = 304))

/-- Throws at a body that must not be, and writes the length of one that may be. -/
def writeLength (res : HTTPResponse) : Option HTTPResponse :=
  if bodiless res.result then if res.body = [] then some res else none
  else some { res with contentLength := some res.body.length }

theorem prepares_writeLength : Prepares writeLength where
  returns res may := by
    rw [writeLength, if_neg may]
    rfl
  length res prepared run may := by
    rw [writeLength, if_neg may] at run
    cases run
    rfl
  rest res prepared run := by
    unfold writeLength at run
    split_ifs at run <;> cases run <;> exact ⟨rfl, rfl, rfl⟩

theorem handleRequest_exact_root :
    Exact writeLength [.router purge ['/'] 0] rootRequest ∧
      (applyAll [.router purge ['/'] 0]).handleRequest writeLength rootRequest okResponse =
        .invoked 0 :=
  ⟨(handleRequest_exact_iff prepares_writeLength _ _).mpr (.inl rfl), rfl⟩

/-- The route of the request is not found. -/
theorem extension_method_missed :
    ¬ ∀ (calls : List (Registration Nat)) (req : HTTPRequest), Exact writeLength calls req := by
  intro always
  have invoked := (always [.router purge ['/'] 0] purgeRequest).invokes 0 okResponse rfl
  cases invoked

end CommonUtils.Network.HTTPS
