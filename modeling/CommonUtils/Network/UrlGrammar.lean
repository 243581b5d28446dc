import CommonUtils.Network.UrlRoundTrip

namespace CommonUtils.Network

open Search

namespace Grammar

def isUnreserved (c : Char) : Bool := c.isAlphanum || c ∈ ['-', '.', '_', '~']

def isSubDelim (c : Char) : Bool :=
  c ∈ ['!', '$', '&', '\x27', '(', ')', '*', '+', ',', ';', '=']

def isRegName (c : Char) : Bool := isUnreserved c || isSubDelim c || c == '%'

def isPchar (c : Char) : Bool := isRegName c || c ∈ [':', '@']

def isPath (c : Char) : Bool := isPchar c || c == '/'

def isQuery (c : Char) : Bool := isPchar c || c ∈ ['/', '?']

def isAddress (c : Char) : Bool :=
  c.isDigit || c.toLower ∈ ['a', 'b', 'c', 'd', 'e', 'f'] || c ∈ [':', '.']

/-- An IPv4 address is a registered name by its letters. -/
def RegName (host : Text) : Prop := ∀ c ∈ host, isRegName c = true

def IpLiteral (host : Text) : Prop :=
  ∃ address : Text, host = ['['] ++ address ++ [']'] ∧
    (∀ c ∈ address, isAddress c = true) ∧ ':' ∈ address

/-- Schemes do not depend on the case of their letters. -/
def lower (scheme : Text) : Text := scheme.map Char.toLower

def http : Text := ['h', 't', 't', 'p']

end Grammar

open Grammar

/-- A URL without userinfo. -/
structure Url where
  scheme : Text
  host : Text
  port : Option Text
  path : Text
  query : Option Text
  fragment : Option Text
  scheme_form : lower scheme = http ∨ lower scheme = https
  host_form : RegName host ∨ IpLiteral host
  port_form : ∀ p ∈ port, ∀ c ∈ p, c.isDigit = true
  path_form : (path = [] ∨ path.head? = some '/') ∧ ∀ c ∈ path, isPath c = true
  query_form : ∀ q ∈ query, ∀ c ∈ q, isQuery c = true
  fragment_form : ∀ f ∈ fragment, ∀ c ∈ f, isQuery c = true

namespace Url

def part (delimiter : Char) : Option Text → Text
  | none => []
  | some text => delimiter :: text

variable (u : Url)

def tail : Text := u.path ++ part '?' u.query ++ part '#' u.fragment

def render : Text :=
  u.scheme ++ separator ++ u.host ++ part ':' u.port ++ u.tail

def defaultPort : Text := if lower u.scheme = https then httpsPort else httpPort

def split : UrlParser where
  protocol := u.scheme
  host := u.host
  port := u.port.getD u.defaultPort
  target := (if u.path = [] then ['/'] else u.path) ++ part '?' u.query

/-- The URLs for which the order of the cuts of `UrlParser` does not matter. -/
structure Plain : Prop where
  host : ¬ IpLiteral u.host
  query : u.path = [] → u.query = none
  fragment : u.fragment = none
  port : u.port = none → lower u.scheme = https → u.scheme = https

theorem colon_scheme : ':' ∉ u.scheme := by
  intro inside
  have member : ':' ∈ lower u.scheme := List.mem_map.mpr ⟨':', inside, by decide⟩
  rcases u.scheme_form with same | same <;> rw [same] at member <;> revert member <;> decide

theorem slash_host : '/' ∉ u.host := by
  intro inside
  rcases u.host_form with name | literal
  · exact absurd (name _ inside) (by decide)
  · rcases literal with ⟨address, same, letters, colon⟩
    rw [same] at inside
    simp only [List.mem_append, List.mem_singleton] at inside
    rcases inside with (open_bracket | inside) | close_bracket
    · revert open_bracket
      decide
    · exact absurd (letters _ inside) (by decide)
    · revert close_bracket
      decide

theorem colon_host : ':' ∈ u.host ↔ IpLiteral u.host := by
  constructor
  · intro inside
    rcases u.host_form with name | literal
    · exact absurd (name _ inside) (by decide)
    · exact literal
  · intro literal
    rcases literal with ⟨address, same, letters, colon⟩
    rw [same]
    exact List.mem_append_left _ (List.mem_append_right _ colon)

theorem slash_port : '/' ∉ part ':' u.port := by
  have digits := u.port_form
  cases port : u.port with
  | none => exact List.not_mem_nil
  | some p =>
      intro inside
      rcases List.mem_cons.mp inside with colon | inside
      · revert colon
        decide
      · exact absurd (digits p port _ inside) (by decide)

/-- The letters of the tail that `UrlParser` counts to the authority. -/
def leaked : Text := u.tail.takeWhile (· ≠ '/')

def slashed : Text := u.tail.dropWhile (· ≠ '/')

theorem slash_authority : '/' ∉ u.host ++ part ':' u.port ++ u.leaked := by
  simp only [List.mem_append, not_or]
  refine ⟨⟨u.slash_host, u.slash_port⟩, fun inside => ?_⟩
  have other := List.mem_takeWhile_imp inside
  revert other
  decide

theorem parse_render : UrlParser.parse u.render = .ok {
    protocol := u.scheme
    host := (UrlParser.hostAndPort u.scheme (u.host ++ part ':' u.port ++ u.leaked)).1
    port := (UrlParser.hostAndPort u.scheme (u.host ++ part ':' u.port ++ u.leaked)).2
    target := if u.slashed = [] then ['/'] else u.slashed } := by
  have absent : ¬ separator <:+: u.scheme := by
    intro inside
    exact u.colon_scheme (inside.subset (by decide))
  have slash : u.slashed = [] ∨ u.slashed.head? = some '/' := by
    cases first : u.slashed.head? with
    | none => exact .inl (List.head?_eq_none_iff.mp first)
    | some c =>
        rw [slashed, ← List.find?_not_eq_head?_dropWhile] at first
        have stopped := List.find?_some first
        simp only [ne_eq, decide_not, Bool.not_not, decide_eq_true_eq] at stopped
        exact .inr (congrArg some stopped)
  have parsed := UrlParser.parse_append absent u.slash_authority slash
  rw [← parsed, render]
  simp only [List.append_assoc, leaked, slashed, List.takeWhile_append_dropWhile]

theorem part_eq_nil {delimiter : Char} {text : Option Text} :
    part delimiter text = [] ↔ text = none := by
  cases text <;> simp [part]

theorem tail_of_no_path (empty : u.path = []) :
    (u.query = none ∧ u.fragment = none ∧ u.tail = []) ∨
      (¬ (u.query = none ∧ u.fragment = none) ∧
        ∃ c rest, u.tail = c :: rest ∧ c ≠ '/' ∧ c ≠ ':') := by
  rw [tail, empty, List.nil_append]
  cases query : u.query with
  | some q => exact .inr ⟨by simp, '?', _, rfl, by decide, by decide⟩
  | none =>
      cases fragment : u.fragment with
      | some f => exact .inr ⟨by simp, '#', _, rfl, by decide, by decide⟩
      | none => exact .inl ⟨rfl, rfl, rfl⟩

theorem leaked_of_path (filled : u.path ≠ []) : u.leaked = [] := by
  have slash := u.path_form.1.resolve_left filled
  rcases List.head?_eq_some_iff.mp slash with ⟨rest, same⟩
  simp [leaked, tail, same]

theorem leaked_eq_nil_iff :
    u.leaked = [] ↔ (u.path = [] → u.query = none ∧ u.fragment = none) := by
  by_cases empty : u.path = []
  · rcases u.tail_of_no_path empty with ⟨query, fragment, tail⟩ | ⟨some, c, rest, tail, other, _⟩
    · simp [leaked, tail, query, fragment]
    · simp [leaked, tail, other, empty, some]
  · simp [u.leaked_of_path empty, empty]

theorem leaked_head : u.leaked.head? ≠ some ':' := by
  by_cases empty : u.path = []
  · rcases u.tail_of_no_path empty with ⟨_, _, tail⟩ | ⟨_, c, rest, tail, other, colon⟩
    · simp [leaked, tail]
    · simp [leaked, tail, other, colon]
  · simp [u.leaked_of_path empty]

theorem hostAndPort_host (protocol : Text) {host rest : Text} {c : Char} (absent : ':' ∉ host)
    (other : c ≠ ':') : (UrlParser.hostAndPort protocol (host ++ c :: rest)).1 ≠ host := by
  have longer : (host ++ c :: rest).takeWhile (· ≠ ':') ≠ host := by
    rw [append_takeWhile_ne absent]
    simp [other]
  unfold UrlParser.hostAndPort
  cases found : find [':'] (host ++ c :: rest) with
  | none => simp
  | some port_start =>
      rw [← (take_find_singleton found).1] at longer
      exact longer

theorem hostAndPort_leaked {protocol host extra standard : Text} {port : Option Text}
    (absent : ':' ∉ host) (head : extra.head? ≠ some ':') :
    UrlParser.hostAndPort protocol (host ++ part ':' port ++ extra) =
        (host, port.getD standard) ↔
      extra = [] ∧ (port = none → UrlParser.defaultPort protocol = standard) := by
  cases port with
  | some p =>
      have read : UrlParser.hostAndPort protocol (host ++ part ':' (some p) ++ extra) =
          (host, p ++ extra) := by
        have split : UrlParser.hostAndPort protocol (host ++ [':'] ++ (p ++ extra)) =
            (host, p ++ extra) := UrlParser.hostAndPort_append absent
        rw [← split]
        simp [part]
      rw [read]
      simp
  | none =>
      rw [part, List.append_nil]
      cases extra with
      | nil =>
          rw [List.append_nil, UrlParser.hostAndPort, find_singleton_eq_none_iff.mpr absent]
          simp
      | cons c rest =>
          have other : c ≠ ':' := fun same => head (congrArg some same)
          simp only [reduceCtorEq, false_and, iff_false]
          intro same
          exact hostAndPort_host protocol absent other (congrArg Prod.fst same)

theorem defaultPort_eq_iff :
    UrlParser.defaultPort u.scheme = u.defaultPort ↔
      (lower u.scheme = https → u.scheme = https) := by
  unfold UrlParser.defaultPort defaultPort
  by_cases exact_case : u.scheme = https
  · rw [exact_case]
    decide
  · by_cases any_case : lower u.scheme = https
    · simp [exact_case, any_case, httpPort, httpsPort]
    · simp [exact_case, any_case]

theorem target_eq_iff (ends : u.leaked = []) :
    (if u.slashed = [] then ['/'] else u.slashed) = u.split.target ↔ u.fragment = none := by
  have slashed : u.slashed = u.tail := by
    have whole := List.takeWhile_append_dropWhile (p := (· ≠ '/')) (l := u.tail)
    rw [leaked] at ends
    rwa [ends, List.nil_append] at whole
  rw [slashed, split]
  by_cases empty : u.path = []
  · have none := u.leaked_eq_nil_iff.mp ends empty
    simp [tail, empty, none.1, none.2, part]
  · have filled : u.tail ≠ [] := by simp [tail, empty]
    rw [if_neg filled, if_neg empty, tail]
    simp [part_eq_nil]

/-- `UrlParser` splits a URL as its grammar does just for the plain ones. -/
theorem parse_eq_split_iff (u : Url) : UrlParser.parse u.render = .ok u.split ↔ u.Plain := by
  have slash : '/' ∉ u.host ++ part ':' u.port ++ u.leaked := u.slash_authority
  rw [parse_render, Except.ok.injEq]
  constructor
  · intro same
    have host := congrArg UrlParser.host same
    have port := congrArg UrlParser.port same
    have target := congrArg UrlParser.target same
    dsimp only [split] at host port
    have absent : ':' ∉ u.host := by
      rw [← host]
      exact (UrlParser.hostAndPort_separated u.scheme slash).2.1
    have read := (hostAndPort_leaked absent u.leaked_head).mp (Prod.ext host port)
    have fragment := (u.target_eq_iff read.1).mp target
    exact {
      host := fun literal => absent (u.colon_host.mpr literal)
      query := fun empty => (u.leaked_eq_nil_iff.mp read.1 empty).1
      fragment := fragment
      port := fun none => u.defaultPort_eq_iff.mp (read.2 none) }
  · intro plain
    have absent : ':' ∉ u.host := fun inside => plain.host (u.colon_host.mp inside)
    have ends : u.leaked = [] :=
      u.leaked_eq_nil_iff.mpr fun empty => ⟨plain.query empty, plain.fragment⟩
    have read := (hostAndPort_leaked absent u.leaked_head).mpr
      ⟨ends, fun none => u.defaultPort_eq_iff.mpr (plain.port none)⟩
    rw [read, (u.target_eq_iff ends).mpr plain.fragment]
    rfl

def queryWithoutPath : Url where
  scheme := http
  host := ['a']
  port := none
  path := []
  query := some ['b']
  fragment := none
  scheme_form := .inl (by decide)
  host_form := .inl (List.forall_mem_singleton.mpr rfl)
  port_form := by simp
  path_form := by simp
  query_form := by
    intro q same
    cases same
    exact List.forall_mem_singleton.mpr rfl
  fragment_form := by simp

/-- The query is part of the host, and not of the target. -/
theorem query_in_host : ¬ ∀ u : Url, UrlParser.parse u.render = .ok u.split := by
  intro always
  have parsed : UrlParser.parse queryWithoutPath.render =
      .ok ⟨http, ['a', '?', 'b'], httpPort, ['/']⟩ := rfl
  rw [always queryWithoutPath, Except.ok.injEq] at parsed
  have host := congrArg UrlParser.host parsed
  revert host
  decide

end Url

end CommonUtils.Network
