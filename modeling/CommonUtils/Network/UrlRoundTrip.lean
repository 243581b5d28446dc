import CommonUtils.Network.UrlParser

namespace CommonUtils.Network

open Search

def separator : Text := [':', '/', '/']

namespace UrlParser

def render (parser : UrlParser) : Text :=
  parser.protocol ++ separator ++ parser.host ++ [':'] ++ parser.port ++ parser.target

/-- The fields are parts that the delimiters keep apart. -/
structure Separated (parser : UrlParser) : Prop where
  protocol : ¬ separator <:+: parser.protocol
  host : '/' ∉ parser.host ∧ ':' ∉ parser.host
  port : '/' ∉ parser.port
  target : parser.target.head? = some '/'

theorem hostAndTarget_append {authority target : Text} (host : '/' ∉ authority)
    (slash : target = [] ∨ target.head? = some '/') :
    hostAndTarget (authority ++ target) = (authority, if target = [] then ['/'] else target) := by
  rcases slash with rfl | slash
  · rw [List.append_nil, hostAndTarget, find_singleton_eq_none_iff.mpr host]
    rfl
  · rcases List.head?_eq_some_iff.mp slash with ⟨rest, rfl⟩
    rw [hostAndTarget, find_append_singleton host]
    simp

theorem parse_append {protocol authority target : Text} (absent : ¬ separator <:+: protocol)
    (host : '/' ∉ authority) (slash : target = [] ∨ target.head? = some '/') :
    parse (protocol ++ separator ++ authority ++ target) = .ok {
      protocol := protocol
      host := (hostAndPort protocol authority).1
      port := (hostAndPort protocol authority).2
      target := if target = [] then ['/'] else target } := by
  have found : find separator (protocol ++ separator ++ (authority ++ target)) =
      some protocol.length := find_append_of_borderless (by decide) absent
  have before : (protocol ++ separator ++ (authority ++ target)).take protocol.length =
      protocol := by
    rw [List.append_assoc, List.take_left]
  have behind : (protocol ++ separator ++ (authority ++ target)).drop (protocol.length + 3) =
      authority ++ target := List.drop_left' List.length_append
  rw [List.append_assoc _ authority, parse]
  simp only [separator] at found before behind ⊢
  simp only [found, before, behind, hostAndTarget_append host slash]

theorem hostAndPort_append {protocol host port : Text} (absent : ':' ∉ host) :
    hostAndPort protocol (host ++ [':'] ++ port) = (host, port) := by
  rw [List.append_assoc, hostAndPort, List.singleton_append, find_append_singleton absent]
  simp

theorem parse_render {parser : UrlParser} (separated : parser.Separated) :
    parse parser.render = .ok parser := by
  have slash : '/' ∉ parser.host ++ [':'] ++ parser.port := by
    simp [separated.host.1, separated.port]
  have filled : parser.target ≠ [] := by
    intro empty
    have head := separated.target
    rw [empty] at head
    cases head
  have parsed := parse_append separated.protocol slash (.inr separated.target)
  rw [hostAndPort_append separated.host.2, if_neg filled] at parsed
  rw [← parsed, render]
  simp only [List.append_assoc]

theorem parse_eq_error_iff {url : Text} :
    (∃ what, parse url = .error what) ↔ ¬ separator <:+: url := by
  rw [← find_eq_none_iff_absent, separator]
  unfold parse
  constructor
  · intro rejected
    rcases rejected with ⟨what, rejected⟩
    cases found : find [':', '/', '/'] url with
    | none => rfl
    | some protocol_end => simp [found] at rejected
  · intro absent
    rw [absent]
    exact ⟨_, rfl⟩

theorem hostAndTarget_separated (rest : Text) :
    '/' ∉ (hostAndTarget rest).1 ∧ (hostAndTarget rest).2.head? = some '/' := by
  unfold hostAndTarget
  cases found : find ['/'] rest with
  | none => exact ⟨find_singleton_eq_none_iff.mp found, rfl⟩
  | some host_end =>
      have split := split_of_find_singleton found
      refine ⟨split.1, ?_⟩
      dsimp only
      rw [split.2, List.head?_cons]

theorem hostAndPort_separated (protocol : Text) {authority : Text} (slash : '/' ∉ authority) :
    '/' ∉ (hostAndPort protocol authority).1 ∧ ':' ∉ (hostAndPort protocol authority).1 ∧
      '/' ∉ (hostAndPort protocol authority).2 := by
  unfold hostAndPort
  cases found : find [':'] authority with
  | none =>
      refine ⟨slash, find_singleton_eq_none_iff.mp found, ?_⟩
      dsimp only [defaultPort]
      split <;> decide
  | some port_start =>
      refine ⟨fun inside => slash (List.mem_of_mem_take inside),
        (split_of_find_singleton found).1, fun inside => slash (List.mem_of_mem_drop inside)⟩

theorem separated_of_parse {url : Text} {parser : UrlParser} (accepted : parse url = .ok parser) :
    parser.Separated := by
  rcases parse_eq_ok accepted with ⟨protocol_end, found, rfl⟩
  have target := hostAndTarget_separated (url.drop (protocol_end + 3))
  have host := hostAndPort_separated (url.take protocol_end) target.1
  exact {
    protocol := not_infix_take_of_find (List.cons_ne_nil _ _) found
    host := ⟨host.1, host.2.1⟩
    port := host.2.2
    target := target.2 }

/-- The constructor throws just where there is no `://`, and reads back both what it has
read and any parts that the delimiters keep apart. -/
theorem parse_round_trip :
    (∀ url, (∃ what, parse url = .error what) ↔ ¬ separator <:+: url) ∧
      (∀ url parser, parse url = .ok parser → parse parser.render = .ok parser) ∧
      ∀ P H R T : Text, ¬ separator <:+: P → ('/' ∉ H ∧ ':' ∉ H) → '/' ∉ R →
        T.head? = some '/' → parse (P ++ separator ++ H ++ [':'] ++ R ++ T) = .ok ⟨P, H, R, T⟩ := by
  refine ⟨fun url => parse_eq_error_iff, fun url parser accepted => ?_, ?_⟩
  · exact parse_render (separated_of_parse accepted)
  · intro P H R T protocol host port target
    have separated : Separated ⟨P, H, R, T⟩ := ⟨protocol, host, port, target⟩
    exact parse_render separated

theorem parse_round_trip_repeated :
    parse ['a', ':', '/', ':', '/', '/', ':', ':', '/'] =
        .ok ⟨['a', ':', '/'], [], [':'], ['/']⟩ ∧
      parse (render ⟨['a'], [], [], ['/', '/']⟩) = .ok ⟨['a'], [], [], ['/', '/']⟩ :=
  ⟨parse_round_trip.2.2 ['a', ':', '/'] [] [':'] ['/'] (by decide) (by decide) (by decide) rfl,
    parse_round_trip.2.1 ['a', ':', '/', '/', ':', '/', '/'] ⟨['a'], [], [], ['/', '/']⟩ rfl⟩

end UrlParser

end CommonUtils.Network
