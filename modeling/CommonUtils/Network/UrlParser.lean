import CommonUtils.Library.Search
import Mathlib.Data.List.TakeWhile

namespace CommonUtils.Network

open Search

abbrev Text := List Char

structure UrlParser where
  protocol : Text
  host : Text
  port : Text
  target : Text
deriving DecidableEq

def missingProtocol : String := "Invalid URL: missing protocol"

def https : Text := ['h', 't', 't', 'p', 's']

def httpsPort : Text := ['4', '4', '3']

def httpPort : Text := ['8', '0']

namespace UrlParser

/-- The default that the constructor fills in where the URL names no port. -/
def defaultPort (protocol : Text) : Text := if protocol = https then httpsPort else httpPort

def hostAndTarget (rest : Text) : Text × Text :=
  match find ['/'] rest with
  | none => (rest, ['/'])
  | some host_end => (rest.take host_end, rest.drop host_end)

def hostAndPort (protocol host : Text) : Text × Text :=
  match find [':'] host with
  | some port_start => (host.take port_start, host.drop (port_start + 1))
  | none => (host, defaultPort protocol)

def parse (url : Text) : Except String UrlParser :=
  match find [':', '/', '/'] url with
  | none => .error missingProtocol
  | some protocol_end =>
      let protocol := url.take protocol_end
      let rest := url.drop (protocol_end + 3)
      let (host, target) := hostAndTarget rest
      let (host, port) := hostAndPort protocol host
      .ok { protocol, host, port, target }

end UrlParser

def scheme (url : Text) : Text := url.take ((find [':', '/', '/'] url).getD 0)

def authority (url : Text) : Text :=
  (url.drop ((find [':', '/', '/'] url).getD 0 + 3)).takeWhile (· ≠ '/')

def explicitPort (url : Text) : Option Text :=
  if ':' ∈ authority url then some ((authority url).dropWhile (· ≠ ':')).tail else none

namespace UrlParser

theorem hostAndTarget_host (rest : Text) : (hostAndTarget rest).1 = rest.takeWhile (· ≠ '/') := by
  unfold hostAndTarget
  cases found : find ['/'] rest with
  | some host_end => exact (take_find_singleton found).1
  | none => exact (takeWhile_ne_eq_self_iff.mpr (find_singleton_eq_none_iff.mp found)).symm

theorem hostAndPort_port (protocol host : Text) :
    (hostAndPort protocol host).2 =
      if ':' ∈ host then (host.dropWhile (· ≠ ':')).tail else defaultPort protocol := by
  unfold hostAndPort
  cases found : find [':'] host with
  | none => rw [if_neg (find_singleton_eq_none_iff.mp found)]
  | some port_start =>
      have present : ':' ∈ host := by
        by_contra absent
        rw [find_singleton_eq_none_iff.mpr absent] at found
        cases found
      rw [if_pos present, ← (take_find_singleton found).2, List.tail_drop]

theorem parse_eq_ok {url : Text} {parser : UrlParser} (accepted : parse url = .ok parser) :
    ∃ protocol_end, find [':', '/', '/'] url = some protocol_end ∧
      parser =
        ⟨url.take protocol_end,
          (hostAndPort (url.take protocol_end)
            (hostAndTarget (url.drop (protocol_end + 3))).1).1,
          (hostAndPort (url.take protocol_end)
            (hostAndTarget (url.drop (protocol_end + 3))).1).2,
          (hostAndTarget (url.drop (protocol_end + 3))).2⟩ := by
  unfold parse at accepted
  split at accepted
  · cases accepted
  · rename_i protocol_end found
    cases accepted
    exact ⟨protocol_end, found, rfl⟩

theorem parse_spec {url : Text} {parser : UrlParser} (accepted : parse url = .ok parser) :
    parser.protocol = scheme url ∧
      parser.port = (explicitPort url).getD (defaultPort (scheme url)) := by
  rcases parse_eq_ok accepted with ⟨protocol_end, found, rfl⟩
  constructor
  · simp [scheme, found]
  · simp only [hostAndPort_port, hostAndTarget_host, explicitPort, authority, scheme, found,
      Option.getD_some]
    split <;> rfl

end UrlParser

end CommonUtils.Network
