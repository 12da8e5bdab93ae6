import Horizon.Kernel.Packets
/-!
# The connection a segment is delivered to

`tcp_recv` takes the first connection of the list that accepts a segment, with zero remote fields
as wildcards, whatever the state of the connection.
-/

namespace Horizon.Packets

/-- The segment is for the local address and port of the connection. -/
def Endpoint.AtLocal (info : Endpoint) (route : Route) : Prop :=
  info.localIp = route.dst ∧ info.localPort = route.dstPort

/-- All four of address and port, local and remote, are those of the segment. -/
def Endpoint.Exact (info : Endpoint) (route : Route) : Prop :=
  info.AtLocal route ∧ info.remoteIp = route.src ∧ info.remotePort = route.srcPort

/-- A listener at the local address and port of the segment. -/
def Endpoint.Listens (info : Endpoint) (route : Route) : Prop :=
  info.AtLocal route ∧ info.state = .listen

/-- A segment that passes the checks of `tcp_recv` before the list. -/
structure ValidSegment where
  bytes : Bytes
  src : Ipv4Addr
  dst : Ipv4Addr
  header : ¬ (bytes.getD 12 0).toNat / 16 * 4 < 20
  checksum : tcpChecksum bytes src dst = wordAt bytes 16

def ValidSegment.route (segment : ValidSegment) : Route :=
  routeOf segment.bytes segment.src segment.dst

variable (infos : List Endpoint)

/-- An exact match gets the segment; without one a listener does; without either it is dropped. -/
def DeliveredRight (route : Route) : TcpResult → Prop
  | .delivered info => info.Exact route ∨ info.Listens route ∧ ∀ other ∈ infos, ¬ other.Exact route
  | .dropped => ∀ info ∈ infos, ¬ info.Exact route ∧ ¬ info.Listens route
  | _ => False

/-- The segment is accepted, but only because zero remote fields stand for any. -/
def Endpoint.Wildcard (info : Endpoint) (route : Route) : Prop :=
  info.accepts route = true ∧ ¬ info.Exact route

/-- No wildcard match stands before the first exact match. Without an exact match, the first
wildcard match is a listener, or there is neither a wildcard match nor a listener. -/
def FirstMatchFits (route : Route) : Prop :=
  (∀ before info after, infos = before ++ info :: after → info.Wildcard route →
    (∃ other ∈ after, other.Exact route) → ∃ other ∈ before, other.Exact route) ∧
  ((∀ info ∈ infos, ¬ info.Exact route) →
    (∃ before info after, infos = before ++ info :: after ∧ info.Wildcard route ∧
      info.Listens route ∧ ∀ other ∈ before, ¬ other.Wildcard route) ∨
    ∀ info ∈ infos, ¬ info.Wildcard route ∧ ¬ info.Listens route)

variable {info : Endpoint} {route : Route}

theorem Endpoint.Exact.accepts (exact : info.Exact route) : info.accepts route = true := by
  obtain ⟨⟨ip, port⟩, remoteIp, remotePort⟩ := exact
  simp [Endpoint.accepts, ip, port, remoteIp, remotePort]

/-- A valid segment goes to the first connection that accepts it. -/
theorem tcpRecv_valid (segment : ValidSegment) :
    tcpRecv infos segment.bytes segment.src segment.dst =
      (infos.find? (·.accepts segment.route)).elim .dropped .delivered := by
  rw [tcpRecv, if_neg segment.header, if_neg (not_not.mpr segment.checksum)]
  change _ = (infos.find? (·.accepts (routeOf segment.bytes segment.src segment.dst))).elim _ _
  cases infos.find? (·.accepts (routeOf segment.bytes segment.src segment.dst)) <;> rfl

/-- What stands before a match: the first connection that accepts, or part of what is before it. -/
theorem first_before {before after before' after' : List Endpoint} {first info : Endpoint}
    (earlier : ∀ other ∈ before, other.accepts route = false) (accepted : info.accepts route = true)
    (split : before ++ first :: after = before' ++ info :: after') :
    first = info ∨ first ∈ before' := by
  rcases List.append_eq_append_iff.mp split with ⟨middle, rfl, rest⟩ | ⟨middle, rfl, rest⟩
  · cases middle with
    | nil =>
      cases rest
      exact .inl rfl
    | cons _ middle =>
      cases rest
      exact .inr (by simp)
  · cases middle with
    | nil =>
      cases rest
      exact .inl rfl
    | cons _ middle =>
      cases rest
      exact absurd accepted (by simp [earlier info (by simp)])

/-- A valid segment goes where it should exactly when no wildcard match comes first wrongly. -/
theorem tcp_recv_delivers_iff (infos : List Endpoint) (segment : ValidSegment) :
    DeliveredRight infos segment.route (tcpRecv infos segment.bytes segment.src segment.dst) ↔
      FirstMatchFits infos segment.route := by
  rw [tcpRecv_valid]
  cases found : infos.find? (·.accepts segment.route) with
  | none =>
    have nobody : ∀ info ∈ infos, ¬ info.accepts segment.route = true := by
      simpa using List.find?_eq_none.mp found
    have noExact : ∀ info ∈ infos, ¬ info.Exact segment.route :=
      fun info member exact => nobody info member exact.accepts
    constructor
    · intro right
      refine ⟨fun before info after split wildcard => ?_, fun _ => .inr fun info member => ?_⟩
      · exact absurd wildcard.1 (nobody info (by simp [split]))
      · exact ⟨fun wildcard => nobody info member wildcard.1, (right info member).2⟩
    · intro fits info member
      refine ⟨noExact info member, ?_⟩
      rcases fits.2 noExact with ⟨before, first, after, split, wildcard, -⟩ | none
      · exact absurd wildcard.1 (nobody first (by simp [split]))
      · exact (none info member).2
  | some info =>
    obtain ⟨accepted, before, after, split, earlier⟩ := List.find?_eq_some_iff_append.mp found
    have earlier : ∀ other ∈ before, other.accepts segment.route = false := by simpa using earlier
    have member : info ∈ infos := by simp [split]
    constructor
    · rintro (exact | ⟨listens, noExact⟩)
      · refine ⟨fun before' first after' split' wildcard _ => ?_,
          fun none => absurd exact (none info member)⟩
        rcases first_before earlier wildcard.1 (split ▸ split') with rfl | inside
        · exact absurd exact wildcard.2
        · exact ⟨info, inside, exact⟩
      · refine ⟨fun before' first after' split' _ ⟨other, behind, exact⟩ => ?_, fun _ => .inl ?_⟩
        · exact absurd exact (noExact other (by simp [split', behind]))
        · exact ⟨before, info, after, split, ⟨accepted, noExact info member⟩, listens,
            fun other inside wildcard => absurd wildcard.1 (by simp [earlier other inside])⟩
    · intro fits
      by_cases exact : info.Exact segment.route
      · exact .inl exact
      have noEarlier : ∀ other ∈ before, ¬ other.Exact segment.route := fun other inside exact =>
        absurd exact.accepts (by simp [earlier other inside])
      have noExact : ∀ other ∈ infos, ¬ other.Exact segment.route := by
        intro other inside isExact
        rw [split, List.mem_append, List.mem_cons] at inside
        rcases inside with inside | rfl | behind
        · exact noEarlier other inside isExact
        · exact exact isExact
        · obtain ⟨first, inside, isFirst⟩ := fits.1 before info after split ⟨accepted, exact⟩
            ⟨other, behind, isExact⟩
          exact noEarlier first inside isFirst
      rcases fits.2 noExact with ⟨before', first, after', split', wildcard, listens, none⟩ | none
      · rcases first_before earlier wildcard.1 (split ▸ split') with rfl | inside
        · exact .inr ⟨listens, noExact⟩
        · exact absurd ⟨accepted, exact⟩ (none info inside)
      · exact absurd ⟨accepted, exact⟩ (none info member).1

def idle : Endpoint := ⟨⟨10, 0, 0, 1⟩, 80, ⟨0, 0, 0, 0⟩, 0, .closed⟩

def unexpected : Bytes :=
  [0, 9, 0, 80, 0, 0, 0, 0, 0, 0, 0, 0, 0x50, 2, 0, 0, 0x9B, 0x87, 0, 0]

/-- A connection that is closed, with zero remote fields, gets a segment that nobody waits for. -/
theorem closed_connection_delivered : ∃ segment : ValidSegment,
    segment.bytes = unexpected ∧ ¬ DeliveredRight [idle] segment.route
      (tcpRecv [idle] segment.bytes segment.src segment.dst) := by
  refine ⟨⟨unexpected, ⟨10, 0, 0, 2⟩, ⟨10, 0, 0, 1⟩, by decide, ?_⟩, rfl, ?_⟩
  · unfold tcpChecksum foldAll
    decide +kernel
  · intro right
    rw [tcpRecv_valid] at right
    have right : idle.Exact _ ∨ idle.Listens _ ∧ _ := right
    rcases right with exact | listens
    · exact absurd exact.2.1 (by decide)
    · exact absurd listens.1.2 (by decide)

end Horizon.Packets
