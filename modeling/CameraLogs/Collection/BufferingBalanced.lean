import CameraLogs.Collection.Buffering

/-!
# The receive budget balances

What is taken from the budget is what the sessions hold together (`NodeOk`), at every
point where a session waits. A session that holds something is never one that waits for
the budget, and a read of at most `readBytes` settles within what was taken for it: each
of its bytes may start a line, and the time in front of a line has 22 bytes.
-/

namespace CameraLogs.Collection

open Lib Logs

/-- The bytes of a batch. -/
def batchBytes (pending : List Bytes) : Int := total (fun data : Bytes => (data.length : Int)) pending

theorem batchBytes_nonneg (pending : List Bytes) : 0 ≤ batchBytes pending :=
  total_nonneg _ fun _ _ => Int.natCast_nonneg _

/-- What a session holds at the point where it waits. -/
def Session.PointOk (session : Session) : Prop :=
  match session.point with
  | .loop => session.readPending = false ∧ session.held = batchBytes session.pending
  | .waiting | .idle | .publishing .read | .publishing .timeout | .publishing .loop =>
    session.readPending = false ∧ session.held = 0 ∧ session.pending = []
  | .reading | .received _ =>
    session.readPending = true ∧ session.held = reservationBytes + batchBytes session.pending
  | .writing _ => session.pending = []
  | .publishing .close | .closed => session.held = 0
  | .closing | .finishing => True

structure Session.Ok (session : Session) : Prop where
  nonneg : 0 ≤ session.held
  point : session.PointOk

/-- The budget moves as the session does, and a grant keeps to the limit. -/
structure Moves (limit used : Int) (session : Session) (used' : Int) (session' : Session) : Prop where
  ok : session'.Ok
  balance : used' - used = session'.held - session.held
  bounded : used < used' → used' ≤ limit

theorem release_eq {size used : Int} (hsize : 0 ≤ size) (hle : size ≤ used) :
    release size used = some (used - size) :=
  if_pos ⟨hsize, hle⟩

theorem Session.releaseAll_eq {session : Session} {used : Int} (hnonneg : 0 ≤ session.held)
    (hle : session.held ≤ used) :
    session.releaseAll used
      = some (used - session.held, { session with held := 0, readPending := false }) := by
  unfold Session.releaseAll
  rw [release_eq hnonneg hle]
  rfl

/-- Giving back never raises. -/
theorem Session.give_eq {session : Session} {used : Int} (point : Point) (hnonneg : 0 ≤ session.held)
    (hle : session.held ≤ used) :
    session.give used point
      = (used - session.held, { session with held := 0, readPending := false, point }) := by
  unfold Session.give
  rw [Session.releaseAll_eq hnonneg hle]

/-- Nor does settling a read within what was taken for it. -/
theorem Session.settleRead_eq {session : Session} {size used : Int}
    (hpending : session.readPending = true) (hsize : 0 ≤ size) (hle : size ≤ reservationBytes)
    (hheld : reservationBytes ≤ session.held) (hused : session.held ≤ used) :
    session.settleRead size used =
      some (used - (reservationBytes - size),
        { session with held := session.held - (reservationBytes - size), readPending := false }) := by
  have hreturned : 0 ≤ reservationBytes - size ∧ reservationBytes - size ≤ used := by omega
  unfold Session.settleRead
  rw [if_neg]
  · dsimp only
    rw [release_eq hreturned.1 hreturned.2]
    rfl
  · rintro (hfalse | hbad)
    · rw [hpending] at hfalse
      cases hfalse
    · exact hbad ⟨hsize, hle⟩

section session

variable {limit used used' : Int} {session session' : Session}

theorem moves_give {point : Point} (hok : session.Ok) (hle : session.held ≤ used)
    (hpoint : Session.PointOk { session with held := 0, readPending := false, point }) :
    Moves limit used session (session.give used point).1 (session.give used point).2 := by
  rw [Session.give_eq point hok.nonneg hle]
  have hnonneg := hok.nonneg
  refine ⟨⟨Int.le_refl 0, hpoint⟩, ?_, ?_⟩
  · show used - session.held - used = 0 - session.held
    omega
  · intro hlt
    have hlt' : used < used - session.held := hlt
    omega

/-- A session that goes on elsewhere with what it holds. -/
theorem moves_stay (hnonneg : 0 ≤ session.held) (hheld : session'.held = session.held)
    (hpoint : session'.PointOk) : Moves limit used session used session' where
  ok := ⟨hheld ▸ hnonneg, hpoint⟩
  balance := by omega
  bounded := fun hlt => by omega

theorem moves_granted (havail : available limit used = true)
    (hheld : session.held = batchBytes session.pending) :
    Moves limit used session (used + reservationBytes) session.granted := by
  have hlimit : used + reservationBytes ≤ limit := of_decide_eq_true havail
  have hbatch := batchBytes_nonneg session.pending
  refine ⟨⟨?_, rfl, ?_⟩, ?_, fun _ => hlimit⟩
  · show 0 ≤ session.held + reservationBytes
    unfold reservationBytes
    omega
  · show session.held + reservationBytes = _
    rw [hheld, Int.add_comm]
    rfl
  · show used + reservationBytes - used = session.held + reservationBytes - session.held
    omega

/-- A reader waits only when it holds nothing. -/
theorem moves_acquireRead (hread : session.readPending = false)
    (hheld : session.held = batchBytes session.pending)
    (hwait : available limit used = false → session.pending = []) :
    Moves limit used session (session.acquireRead limit used).1 (session.acquireRead limit used).2 := by
  unfold Session.acquireRead
  rw [if_neg (by rw [hread]; exact Bool.false_ne_true)]
  by_cases havail : available limit used = true
  · rw [if_pos havail]
    exact moves_granted havail hheld
  · rw [if_neg havail]
    have hempty := hwait (Bool.eq_false_of_not_eq_true havail)
    have hzero : session.held = 0 := by
      rw [hheld, hempty]
      rfl
    exact moves_stay (hzero ▸ Int.le_refl 0) rfl ⟨hread, hzero, hempty⟩

theorem moves_settleNothing {next : Session → Session} (hle : session.held ≤ used)
    (hread : session.readPending = true)
    (hheld : session.held = reservationBytes + batchBytes session.pending)
    (hnext : ∀ settled : Session, settled.readPending = false →
      settled.held = batchBytes settled.pending →
        (next settled).held = settled.held ∧ (next settled).PointOk) :
    Moves limit used session (session.settleNothing used next).1 (session.settleNothing used next).2 := by
  have hbatch := batchBytes_nonneg session.pending
  unfold Session.settleNothing
  rw [Session.settleRead_eq hread (Int.le_refl 0) (by decide) (by omega) hle]
  obtain ⟨hsame, hpoint⟩ := hnext
    { session with held := session.held - (reservationBytes - 0), readPending := false } rfl
    (by show session.held - (reservationBytes - 0) = batchBytes session.pending; omega)
  have hsame' : (next { session with held := session.held - (reservationBytes - 0), readPending := false }).held
      = session.held - (reservationBytes - 0) := hsame
  refine ⟨⟨?_, hpoint⟩, ?_, ?_⟩
  · show 0 ≤ (next _).held
    omega
  · show used - (reservationBytes - 0) - used = (next _).held - session.held
    omega
  · intro hlt
    have hlt' : used < used - (reservationBytes - 0) := hlt
    unfold reservationBytes at hlt'
    omega

/-- The times in front of the lines of a read fit into what was taken for it. -/
theorem prefixed_fits {data : Bytes} (hlen : data.length ≤ readBytes) (atLineStart : Bool)
    (time : LocalTime) :
    ((prefixLines atLineStart data time.stamp).1.length : Int) ≤ reservationBytes := by
  have hle := length_prefixLines_le atLineStart data time.stamp
  rw [time.length_stamp] at hle
  unfold readBytes at hlen
  unfold reservationBytes
  omega

/-- A session with nothing can begin the loop again. -/
theorem pointOk_loop
    (h : session.readPending = false ∧ session.held = 0 ∧ session.pending = []) :
    Session.PointOk { session with point := .loop } := by
  refine ⟨h.1, ?_⟩
  show session.held = batchBytes session.pending
  rw [h.2.1, h.2.2]
  rfl

/-- A result, read off as a pair. -/
theorem Moves.of_pair {result : Int × Session} (h : some result = some (used', session'))
    (hmoves : Moves limit used session result.1 result.2) : Moves limit used session used' session' := by
  cases h
  exact hmoves

theorem moves_accept {data : Bytes} {time : LocalTime} {flush : Bool} (hok : session.Ok)
    (hle : session.held ≤ used) (hpoint : session.point = .received data)
    (h : session.resume limit used (.accepted time flush) = some (used', session')) :
    Moves limit used session used' session' := by
  obtain ⟨point, held, readPending, pending, atLineStart⟩ := session
  cases hpoint
  obtain ⟨hread, hheld⟩ := hok.point
  have hbatch := batchBytes_nonneg pending
  have hheld' : held = reservationBytes + batchBytes pending := hheld
  have hle' : held ≤ used := hle
  simp only [Session.resume] at h
  by_cases hfits : ((prefixLines atLineStart data time.stamp).1.length : Int) ≤ reservationBytes
  · have hsettle := @Session.settleRead_eq
      { point := .received data, held, readPending, pending
        atLineStart := (prefixLines atLineStart data time.stamp).2 }
      _ used hread (Int.natCast_nonneg _) hfits (by show _ ≤ held; omega) hle
    rw [hsettle] at h
    cases h
    have hnew : held - (reservationBytes - ((prefixLines atLineStart data time.stamp).1.length : Int))
        = batchBytes (pending ++ [(prefixLines atLineStart data time.stamp).1]) := by
      unfold batchBytes
      rw [total_append, total_cons, total_nil]
      unfold batchBytes at hheld'
      omega
    have hsettled : 0 ≤ held - (reservationBytes - ((prefixLines atLineStart data time.stamp).1.length : Int)) := by
      omega
    have hbalance : ∀ returned : Int, used - returned - used = held - returned - held := by
      intro returned
      omega
    cases flush with
    | true => exact ⟨⟨hsettled, rfl⟩, hbalance _, fun hlt => by omega⟩
    | false => exact ⟨⟨hsettled, rfl, hnew⟩, hbalance _, fun hlt => by omega⟩
  · -- more than was taken: an error, and the session gives everything back at its end
    have hnone : Session.settleRead
        { point := .received data, held, readPending, pending
          atLineStart := (prefixLines atLineStart data time.stamp).2 }
        ((prefixLines atLineStart data time.stamp).1.length) used = none := by
      unfold Session.settleRead
      exact if_pos (Or.inr fun hbad => hfits hbad.2)
    rw [hnone] at h
    cases h
    exact moves_stay hok.nonneg rfl trivial

/-- Whatever a session is resumed with, it moves as the budget does. -/
theorem moves_resume {event : Event} (hok : session.Ok) (hle : session.held ≤ used)
    (h : session.resume limit used event = some (used', session')) :
    Moves limit used session used' session' := by
  cases event with
  | accepted time flush =>
    rcases hpoint : session.point with _ | _ | _ | data
    case received => exact moves_accept hok hle hpoint h
    all_goals
      simp only [Session.resume, hpoint] at h
      cases h
  | check go =>
    obtain ⟨point, held, readPending, pending, atLineStart⟩ := session
    cases point
    case loop =>
      obtain ⟨hread, hheld⟩ := hok.point
      simp only [Session.resume] at h
      split at h
      next =>
        cases h
        exact moves_stay hok.nonneg rfl trivial
      next =>
        split at h
        next =>
          cases h
          exact moves_stay hok.nonneg rfl rfl
        next hkeep =>
          refine Moves.of_pair h (moves_acquireRead hread hheld fun hfull => ?_)
          by_contra hne
          exact hkeep ⟨hne, by rw [hfull]; rfl⟩
    all_goals cases h
  | wake =>
    obtain ⟨point, held, readPending, pending, atLineStart⟩ := session
    cases point
    case waiting =>
      obtain ⟨hread, hheld, hempty⟩ := hok.point
      simp only [Session.resume] at h
      split at h
      next havail =>
        cases h
        refine moves_granted havail ?_
        rw [hheld, hempty]
        rfl
      next =>
        cases h
        exact moves_stay hok.nonneg rfl hok.point
    all_goals cases h
  | data data =>
    obtain ⟨point, held, readPending, pending, atLineStart⟩ := session
    cases point
    case reading =>
      simp only [Session.resume] at h
      split at h
      next => cases h
      next =>
        cases h
        exact moves_stay hok.nonneg rfl hok.point
    all_goals cases h
  | timeout =>
    obtain ⟨point, held, readPending, pending, atLineStart⟩ := session
    cases point
    case reading =>
      obtain ⟨hread, hheld⟩ := hok.point
      refine Moves.of_pair h (moves_settleNothing hle hread hheld fun settled hsettled hbytes => ?_)
      split
      next hempty =>
        refine ⟨rfl, hsettled, ?_, hempty⟩
        show settled.held = 0
        rw [hbytes, hempty]
        rfl
      next => exact ⟨rfl, rfl⟩
    all_goals cases h
  | ended =>
    obtain ⟨point, held, readPending, pending, atLineStart⟩ := session
    cases point
    case reading =>
      obtain ⟨hread, hheld⟩ := hok.point
      exact Moves.of_pair h (moves_settleNothing hle hread hheld fun _ _ _ => ⟨rfl, trivial⟩)
    all_goals cases h
  | done =>
    obtain ⟨point, held, readPending, pending, atLineStart⟩ := session
    cases point
    case writing next =>
      refine Moves.of_pair h (moves_give hok hle ?_)
      cases next
      · exact ⟨rfl, rfl, hok.point⟩
      · exact ⟨rfl, rfl, hok.point⟩
      · exact ⟨rfl, rfl, hok.point⟩
      · rfl
    case publishing next =>
      cases next
      case read =>
        obtain ⟨hread, hheld, hempty⟩ := hok.point
        refine Moves.of_pair h (moves_acquireRead hread ?_ fun _ => hempty)
        rw [hheld, hempty]
        rfl
      case timeout =>
        cases h
        exact moves_stay hok.nonneg rfl hok.point
      case loop =>
        have hpoint := hok.point
        cases h
        exact moves_stay hok.nonneg rfl (pointOk_loop hpoint)
      case close =>
        cases h
        exact moves_stay hok.nonneg rfl trivial
    case idle =>
      have hpoint := hok.point
      cases h
      exact moves_stay hok.nonneg rfl (pointOk_loop hpoint)
    case closing =>
      simp only [Session.resume] at h
      split at h
      next =>
        cases h
        exact moves_stay hok.nonneg rfl trivial
      next =>
        cases h
        exact moves_stay hok.nonneg rfl rfl
    case finishing =>
      exact Moves.of_pair h (moves_give hok hle rfl)
    all_goals cases h
  | failed =>
    obtain ⟨point, held, readPending, pending, atLineStart⟩ := session
    cases point
    case reading =>
      obtain ⟨hread, hheld⟩ := hok.point
      exact Moves.of_pair h (moves_settleNothing hle hread hheld fun _ _ _ => ⟨rfl, trivial⟩)
    case writing next =>
      cases next <;> exact Moves.of_pair h (moves_give hok hle trivial)
    case publishing next =>
      cases next <;> cases h <;> exact moves_stay hok.nonneg rfl trivial
    case finishing =>
      exact Moves.of_pair h (moves_give hok hle rfl)
    all_goals cases h
    all_goals exact moves_stay hok.nonneg rfl trivial
  | cancelled =>
    obtain ⟨point, held, readPending, pending, atLineStart⟩ := session
    cases point
    case reading =>
      obtain ⟨hread, hheld⟩ := hok.point
      exact Moves.of_pair h (moves_settleNothing hle hread hheld fun _ _ _ => ⟨rfl, trivial⟩)
    case writing next =>
      cases next
      case close =>
        have hgive := Session.give_eq .finishing hok.nonneg hle
        have hrest : 0 ≤ used - held := Int.sub_nonneg.mpr hle
        have hnonneg : 0 ≤ held := hok.nonneg
        simp only [Session.resume, hgive] at h
        rw [Session.give_eq .closed (Int.le_refl 0) hrest] at h
        cases h
        refine ⟨⟨Int.le_refl 0, rfl⟩, ?_, ?_⟩
        · show used - held - 0 - used = 0 - held
          omega
        · intro hlt
          have hlt' : used < used - held - 0 := hlt
          omega
      all_goals
        exact Moves.of_pair h (moves_give hok hle trivial)
    case publishing next =>
      cases next
      case close =>
        exact Moves.of_pair h (moves_give hok hle rfl)
      all_goals
        cases h
        exact moves_stay hok.nonneg rfl trivial
    case closing =>
      exact Moves.of_pair h (moves_give hok hle rfl)
    case finishing =>
      exact Moves.of_pair h (moves_give hok hle rfl)
    all_goals cases h
    all_goals exact moves_stay hok.nonneg rfl trivial

end session

/-! ## The node -/

structure NodeOk (node : Node) : Prop where
  balance : node.used = total Session.held node.sessions
  sessions : ∀ session ∈ node.sessions, session.Ok

theorem NodeOk.nonneg {node : Node} (h : NodeOk node) : 0 ≤ node.used := by
  rw [h.balance]
  exact total_nonneg _ fun session hsession => (h.sessions session hsession).nonneg

theorem nodeOk_start : NodeOk Node.start where
  balance := rfl
  sessions := fun _ hsession => absurd hsession List.not_mem_nil

theorem NodeOk.held_le {node : Node} (h : NodeOk node) {session : Session}
    (hsession : session ∈ node.sessions) : session.held ≤ node.used := by
  rw [h.balance]
  exact held_le_total _ (fun other hother => (h.sessions other hother).nonneg) hsession

/-- One act: the budget stays balanced, and a grant keeps to the limit. -/
theorem NodeOk.act {node next : Node} {act : NodeAct} (h : NodeOk node)
    (hact : nodeAct node act = some next) :
    NodeOk next ∧ (node.used < next.used → next.used ≤ node.limit) := by
  cases act with
  | configure bufferMiB =>
    cases hact
    exact ⟨⟨h.balance, h.sessions⟩, fun hlt => absurd hlt (Int.lt_irrefl _)⟩
  | openSession =>
    cases hact
    refine ⟨⟨?_, ?_⟩, fun hlt => absurd hlt (Int.lt_irrefl _)⟩
    · show node.used = total _ (node.sessions ++ [_])
      rw [total_append, ← h.balance, total_cons, total_nil]
      show node.used = node.used + (0 + 0)
      omega
    · intro session hsession
      rcases List.mem_append.mp hsession with hold | hnew
      · exact h.sessions session hold
      · rw [List.mem_singleton.mp hnew]
        exact ⟨Int.le_refl 0, rfl, rfl⟩
  | resume i event =>
    obtain ⟨session, hsession, hrest⟩ := Option.bind_eq_some_iff.mp hact
    obtain ⟨⟨used, session'⟩, hresume, heq⟩ := Option.bind_eq_some_iff.mp hrest
    cases heq
    have hmem := List.mem_of_getElem? hsession
    have hmoves := moves_resume (h.sessions session hmem) (h.held_le hmem) hresume
    refine ⟨⟨?_, ?_⟩, hmoves.bounded⟩
    · show used = total _ (node.sessions.set i session')
      rw [total_set _ hsession, ← h.balance]
      have hbalance := hmoves.balance
      omega
    · intro other hother
      rcases List.mem_or_eq_of_mem_set hother with hold | hnew
      · exact h.sessions other hold
      · rw [hnew]
        exact hmoves.ok

/-- What can happen on a node, in any order. -/
def NodeStep (node next : Node) : Prop := ∃ act, nodeAct node act = some next

theorem reachable_nodeOk {node : Node} (h : Reachable (· = Node.start) NodeStep node) : NodeOk node := by
  refine Reachable.invariant ?_ ?_ h
  · intro first hfirst
    rw [hfirst]
    exact nodeOk_start
  · intro first next hstep hok
    obtain ⟨act, hact⟩ := hstep
    exact (hok.act hact).1

/-- A reader that the budget refuses, again or at once, only waits. -/
theorem acquireRead_refused {limit used : Int} {session : Session} (hread : session.readPending = false)
    (hfull : available limit used = false) :
    session.acquireRead limit used = (used, { session with point := .waiting }) := by
  unfold Session.acquireRead
  rw [if_neg (by rw [hread]; exact Bool.false_ne_true), if_neg (by rw [hfull]; exact Bool.false_ne_true)]

theorem resume_refused {node : Node} {i : Nat} {session : Session} (hi : node.sessions[i]? = some session)
    (hwait : session.point = .waiting) (hfull : available node.limit node.used = false) :
    nodeAct node (.resume i .wake) = some node := by
  have hresume : session.resume node.limit node.used .wake = some (node.used, session) := by
    simp only [Session.resume, hwait]
    exact if_neg (by rw [hfull]; exact Bool.false_ne_true)
  obtain ⟨hlt, hget⟩ := List.getElem?_eq_some_iff.mp hi
  have hset : node.sessions.set i session = node.sessions := by
    rw [← hget, List.set_getElem_self]
  simp only [nodeAct, hi, Option.bind_eq_bind, Option.bind_some, hresume, hset]
  rfl

theorem resume_cancelled {node : Node} {i : Nat} {session : Session} (hi : node.sessions[i]? = some session)
    (hwait : session.point = .waiting) :
    nodeAct node (.resume i .cancelled)
      = some { node with sessions := node.sessions.set i { session with point := .closing } } := by
  have hresume : session.resume node.limit node.used .cancelled = some (node.used, session.raise) := by
    simp only [Session.resume, hwait]
  simp only [nodeAct, hi, Option.bind_eq_bind, Option.bind_some, hresume]
  rfl

/-- In every state of a node: what is taken is what the sessions hold, and not negative;
a grant keeps to the limit; a refused or cancelled reader changes nothing; a reader that
waits for the budget holds nothing of it; and a read within `readBytes` settles. -/
theorem buffers_balanced (node : Node) (h : Reachable (· = Node.start) NodeStep node) :
    node.used = total Session.held node.sessions ∧ 0 ≤ node.used ∧
    (∀ act next, nodeAct node act = some next → node.used < next.used → next.used ≤ node.limit) ∧
    ∀ i session, node.sessions[i]? = some session →
      0 ≤ session.held ∧
      (session.readPending = false → available node.limit node.used = false →
        session.acquireRead node.limit node.used = (node.used, { session with point := .waiting })) ∧
      (session.point = .waiting →
        session.held = 0 ∧
        (available node.limit node.used = false → nodeAct node (.resume i .wake) = some node) ∧
        nodeAct node (.resume i .cancelled)
          = some { node with sessions := node.sessions.set i { session with point := .closing } }) ∧
      ∀ data (time : LocalTime), session.point = .received data → data.length ≤ readBytes →
        ((prefixLines session.atLineStart data time.stamp).1.length : Int) ≤ reservationBytes ∧
        (session.settleRead (prefixLines session.atLineStart data time.stamp).1.length
          node.used).isSome = true := by
  have hok := reachable_nodeOk h
  refine ⟨hok.balance, hok.nonneg, fun act next hact => (hok.act hact).2, ?_⟩
  intro i session hi
  have hmem := List.mem_of_getElem? hi
  have hsession := hok.sessions session hmem
  have hpoint := hsession.point
  unfold Session.PointOk at hpoint
  refine ⟨hsession.nonneg, acquireRead_refused, ?_, ?_⟩
  · intro hwait
    rw [hwait] at hpoint
    exact ⟨hpoint.2.1, resume_refused hi hwait, resume_cancelled hi hwait⟩
  · intro data time hreceived hlen
    rw [hreceived] at hpoint
    obtain ⟨hread, hheld⟩ := hpoint
    have hfits := prefixed_fits hlen session.atLineStart time
    have hbatch := batchBytes_nonneg session.pending
    refine ⟨hfits, ?_⟩
    rw [Session.settleRead_eq hread (Int.natCast_nonneg _) hfits (by omega) (hok.held_le hmem)]
    rfl

/-- Two readers, and a budget for one of them. -/
def tightNode : List NodeAct :=
  [.configure 0, .openSession, .openSession, .resume 0 (.check true), .configure 1,
    .resume 1 (.check true)]

theorem buffers_balanced_tight : ∃ node : Node,
    node.sessions.map (·.point) = [.waiting, .reading] ∧
      node.used = total Session.held node.sessions := by
  have hrun := @runActs_steps _ _ Node.start _ (fun act node => nodeAct node act) tightNode rfl
  exact ⟨_, by decide, (buffers_balanced _ ⟨Node.start, rfl, hrun⟩).1⟩

end CameraLogs.Collection
