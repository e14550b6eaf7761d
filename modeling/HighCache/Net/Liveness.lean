import HighCache.Lib.Fairness
import HighCache.Net.Shutdown
import Mathlib.Data.Prod.Lex

/-!
# The calls of the owner return

`start` returns, whether or not the threads can be made, and so does `join` once a stop has been
requested: on every fair run the owner gets to the end of its call (`calls_return`). Fair means that
a thread that can go on from some time on does go on, and nothing else. A thread in `epoll_wait` can
go on once its eventfd is due; that the kernel interrupts it, or reports something else, is never
promised, so a server on which nothing happens is fair. What the sockets do and in which order the
threads run is left open, and whether `start`, `join` or `request_stop` are called again is too.

The rank is lexicographic: what the owner still has to do, and then what the thread has still to do
that the owner waits for.
-/

namespace HighCache

open Fairness

/-! ## Whose turn it is

The owner waits for at most one thread at a time, and then it is the turn of that thread. Where the
acceptor is waited for and has not been woken yet, it is the turn of the thread that asked it to
stop. -/

/-- The threads that must go on. A `requester` is a thread in `request_stop`. -/
inductive CacheServerThread (n : ℕ) where
  | owner
  | acceptor
  | requester
  | worker (w : Fin n)
  deriving DecidableEq, Repr

namespace OwnerPhase

/-- Where the owner is when its call has returned. -/
def result : OwnerPhase → OwnerPhase
  | .idle => .idle
  | .starting => .idle
  | .launching => .idle
  | .failing => .idle
  | .joiningAcceptor => .joined
  | .stopping unwinding _ => if unwinding then .idle else .joined
  | .waking unwinding _ => if unwinding then .idle else .joined
  | .joining unwinding _ => if unwinding then .idle else .joined
  | .clearing => .joined
  | .joined => .joined

/-- The owner is in a call. -/
def busy : OwnerPhase → Bool
  | .idle => false
  | .joined => false
  | _ => true

private theorem result_of_not_busy {p : OwnerPhase} (h : p.busy = false) : p.result = p := by
  cases p <;> first | rfl | cases h

/-- A call that is over has come to its result; one that is not over still goes there. -/
theorem result_cases (p : OwnerPhase) : p = p.result ∨ p.busy = true := by
  cases p with
  | idle => exact Or.inl rfl
  | joined => exact Or.inl rfl
  | _ => exact Or.inr rfl

/-- What the owner has still to do, with `n` workers of which `started` run. -/
def rank (n started : ℕ) : OwnerPhase → ℕ
  | .idle => 0
  | .joined => 0
  | .clearing => 1
  | .joining unwinding w => 2 + ((if unwinding then started else n) - w)
  | .waking unwinding w =>
    2 + (if unwinding then started else n) + 2 * ((if unwinding then started else n) - w)
  | .stopping unwinding w =>
    3 + (if unwinding then started else n) + 2 * ((if unwinding then started else n) - w)
  | .joiningAcceptor => 4 + 3 * n
  | .failing => 4 + 3 * n
  | .launching => 5 + 3 * n
  | .starting => 6 + 3 * n + (n - started)

end OwnerPhase

/-- Whose a step is. Calls are choices of the callers, and a thread that waits in `epoll_wait` goes
on of itself only where it has been woken. -/
def CacheServerStep.thread {n : ℕ} : CacheServerStep n → Option (CacheServerThread n)
  | .requestStop => none
  | .stopWake => some .requester
  | .owner (.start _) => none
  | .owner .join => none
  | .owner _ => some .owner
  | .acceptor step => if step.byKernel then none else some .acceptor
  | .worker w step => if step.byKernel then none else some (.worker w)

namespace CacheServer

variable {n : ℕ} {s s' : CacheServer n}

/-- What the thread has still to do that the owner waits for. -/
def awaitedRank (s : CacheServer n) : ℕ :=
  match s.owner with
  | .joiningAcceptor => s.acceptorRank
  | .joining u w =>
    if h : w < n then
      if w < s.count u then (s.server.workers ⟨w, h⟩).rank else 0
    else 0
  | _ => 0

/-- What is still to do. -/
def rank (s : CacheServer n) : ℕ ×ₗ ℕ := toLex (s.owner.rank n s.started, s.awaitedRank)

/-- The thread that the owner waits for, or the owner itself. -/
def turn (s : CacheServer n) : CacheServerThread n :=
  match s.owner with
  | .joiningAcceptor =>
    if s.thread.live = false then .owner
    else if s.thread = .waiting ∧ s.stopCounter = 0 then .requester
    else .acceptor
  | .joining u w =>
    if h : w < n then
      if w < s.count u ∧ s.idle ⟨w, h⟩ = false then .worker ⟨w, h⟩ else .owner
    else .owner
  | _ => .owner

theorem awaitedRank_joining {u : Bool} {w : ℕ} (howner : s.owner = .joining u w)
    (hw : w < n ∧ w < s.count u) : s.awaitedRank = (s.server.workers ⟨w, hw.1⟩).rank := by
  simp only [awaitedRank, howner, dif_pos hw.1, if_pos hw.2]

private theorem awaitedRank_past {u : Bool} {w : ℕ} (howner : s.owner = .joining u w)
    (hw : ¬ (w < n ∧ w < s.count u)) : s.awaitedRank = 0 := by
  by_cases hn : w < n
  · simp only [awaitedRank, howner, dif_pos hn, if_neg fun hcount ↦ hw ⟨hn, hcount⟩]
  · simp only [awaitedRank, howner, dif_neg hn]

theorem turn_joining {u : Bool} {w : ℕ} (howner : s.owner = .joining u w)
    (hw : w < n ∧ w < s.count u) :
    s.turn = if s.idle ⟨w, hw.1⟩ then .owner else .worker ⟨w, hw.1⟩ := by
  cases hidle : s.idle ⟨w, hw.1⟩ <;> simp [turn, howner, hw.1, hw.2, hidle]

theorem turn_past {u : Bool} {w : ℕ} (howner : s.owner = .joining u w)
    (hw : ¬ (w < n ∧ w < s.count u)) : s.turn = .owner := by
  by_cases hn : w < n
  · simp only [turn, howner, dif_pos hn, if_neg fun hcount ↦ hw ⟨hn, And.left hcount⟩]
  · simp only [turn, howner, dif_neg hn]

/-- The owner is in a call that leads to `p`, and was not called in vain. -/
structure Returning (p : OwnerPhase) (s : CacheServer n) : Prop where
  inv : s.Inv
  stopRequested : s.owner = .joiningAcceptor → s.stopRequested = true
  busy : s.owner.busy = true
  result : s.owner.result = p

/-! ## Nobody is blocked

The thread whose turn it is can take a step. For the owner this is a case for each of its phases,
and for the others it has been proved with their steps. -/

theorem enabled_owner (step : OwnerStep) (hthread : (CacheServerStep.owner (n := n) step).thread
    = some .owner) (h : s.ownerStep step = some s') :
    Enabled CacheServer.step CacheServerStep.thread .owner s :=
  ⟨.owner step, s', hthread, h⟩

/-- The owner goes on when it has nobody to wait for. -/
theorem Inv.enabled_owner (h : s.Inv) (hbusy : s.owner.busy = true) (hturn : s.turn = .owner) :
    Enabled CacheServer.step CacheServerStep.thread .owner s := by
  have hfits := h.fits
  cases howner : s.owner with
  | idle =>
    rw [howner] at hbusy
    cases hbusy
  | joined =>
    rw [howner] at hbusy
    cases hbusy
  | starting =>
    by_cases hstarted : s.started < n
    · exact CacheServer.enabled_owner (.startWorker true) rfl (if_pos ⟨howner, hstarted⟩)
    · have hall : s.started = n := Nat.le_antisymm h.started_le (Nat.le_of_not_lt hstarted)
      exact CacheServer.enabled_owner .publish rfl (if_pos ⟨howner, hall⟩)
  | launching => exact CacheServer.enabled_owner (.launch true) rfl (if_pos howner)
  | failing => exact CacheServer.enabled_owner .unwind rfl (if_pos howner)
  | joiningAcceptor =>
    -- it would be the turn of another thread if the acceptor still ran
    have hlive : s.thread.live = false := by
      by_contra hlive
      simp only [turn, howner, if_neg hlive] at hturn
      split at hturn <;> cases hturn
    have hhalted : s.halted = true := by rw [halted_eq_not_live, hlive]; rfl
    exact CacheServer.enabled_owner .joinAcceptor rfl (if_pos ⟨howner, hhalted⟩)
  | stopping u w =>
    refine ⟨.owner .stopWorker, ?_⟩
    by_cases hw : w < n ∧ w < s.count u
    · simp only [CacheServer.step, ownerStep, howner, dif_pos hw]
      exact ⟨_, rfl, rfl⟩
    · simp only [CacheServer.step, ownerStep, howner, dif_neg hw]
      exact ⟨_, rfl, rfl⟩
  | waking u w =>
    rw [howner] at hfits
    have hw := (hfits.waking u w rfl).1
    -- the wake-up it owes to this worker is the one it is about to give
    have hdue : (s.server.workers ⟨w, hw⟩).stopWakes = 1 := (hfits.due _).trans (if_pos rfl)
    refine ⟨.owner .wakeWorker, ?_⟩
    simp only [CacheServer.step, ownerStep, howner, dif_pos hw, handoff, Server.step, Worker.step,
      if_pos (hdue ▸ Nat.one_pos : 0 < (s.server.workers ⟨w, hw⟩).stopWakes)]
    exact ⟨_, rfl, rfl⟩
  | joining u w =>
    refine ⟨.owner .joinWorker, ?_⟩
    by_cases hw : w < n ∧ w < s.count u
    -- it is not the turn of the worker, so the worker has ended
    · have hidle : s.idle ⟨w, hw.1⟩ = true := by
        by_contra hidle
        rw [turn_joining howner hw, if_neg hidle] at hturn
        cases hturn
      simp only [CacheServer.step, ownerStep, howner, dif_pos hw, if_pos hidle]
      exact ⟨_, rfl, rfl⟩
    · simp only [CacheServer.step, ownerStep, howner, dif_neg hw]
      exact ⟨_, rfl, rfl⟩
  | clearing => exact CacheServer.enabled_owner .clear rfl (if_pos howner)

private theorem Inv.enabled_worker (h : s.Inv) {u : Bool} {w : Fin n}
    (howner : s.owner = .joining u w) (hw : w < s.count u) (hidle : ¬ s.idle w = true) :
    Enabled CacheServer.step CacheServerStep.thread (.worker w) s := by
  have hfits := h.fits
  rw [howner] at hfits
  have hstop : (s.server.workers w).stopRequested = true := hfits.asked w hw
  have hdue : (s.server.workers w).stopWakes = 0 := hfits.due w
  rw [idle_iff, not_or, Nat.not_le] at hidle
  -- it was asked to stop and woken, so if it waits it has been woken since
  obtain ⟨step, ⟨closed, x⟩, hown, hkernel, hstep⟩ :=
    Worker.exists_own_step hidle.2 fun hwaiting ↦
      ((h.server.workers w).stopped hstop hwaiting).resolve_right (by omega)
  refine ⟨.worker w step, { s with server := (s.server.setWorker w x).close closed },
    by rw [CacheServerStep.thread, hkernel]; rfl, ?_⟩
  simp only [CacheServer.step, if_pos (And.intro hidle.1 hown), handoff, Server.step, hstep]
  rfl

/-- **The thread whose turn it is is not blocked.** -/
theorem Returning.enabled {p : OwnerPhase} (h : s.Returning p) :
    Enabled CacheServer.step CacheServerStep.thread s.turn s := by
  cases howner : s.owner with
  | joiningAcceptor =>
    by_cases hlive : s.thread.live = false
    · have hturn : s.turn = .owner := by simp only [turn, howner, if_pos hlive]
      rw [hturn]
      exact h.inv.enabled_owner h.busy hturn
    · by_cases hwaiting : s.thread = .waiting ∧ s.stopCounter = 0
      · have hturn : s.turn = .requester := by
          simp only [turn, howner, if_neg hlive, if_pos hwaiting]
        -- a stop has been requested, and the one who did it still owes the wake-up
        have hwakes : 0 < s.stopWakes :=
          (h.inv.noticed (h.stopRequested howner) hwaiting.1).resolve_left (by omega)
        rw [hturn]
        exact ⟨.stopWake, _, rfl, if_pos hwakes⟩
      · have hturn : s.turn = .acceptor := by
          simp only [turn, howner, if_neg hlive, if_neg hwaiting]
        obtain ⟨step, s', hkernel, hstep⟩ := exists_acceptor_step (Bool.not_eq_false _ ▸ hlive)
          h.inv.synced fun heq ↦ Nat.pos_of_ne_zero fun hzero ↦ hwaiting ⟨heq, hzero⟩
        rw [hturn]
        exact ⟨.acceptor step, s', by rw [CacheServerStep.thread, hkernel]; rfl, hstep⟩
  | joining u w =>
    by_cases hw : w < n ∧ w < s.count u
    · by_cases hidle : s.idle ⟨w, hw.1⟩ = true
      · have hturn : s.turn = .owner := by rw [turn_joining howner hw, if_pos hidle]
        rw [hturn]
        exact h.inv.enabled_owner h.busy hturn
      · rw [turn_joining howner hw, if_neg hidle]
        exact h.inv.enabled_worker (w := ⟨w, hw.1⟩) howner hw.2 hidle
    · have hturn := turn_past howner hw
      rw [hturn]
      exact h.inv.enabled_owner h.busy hturn
  | _ =>
    have hturn : s.turn = .owner := by simp only [turn, howner]
    rw [hturn]
    exact h.inv.enabled_owner h.busy hturn

/-! ## Everybody comes closer

Steps of the thread whose turn it is lower the rank, and steps of all others leave it or lower it.
That they leave the turn as well is what takes the work: a step of another thread must not make the
owner wait for somebody else. -/

theorem not_busy {p : OwnerPhase} (hbusy : p.busy = true) : ¬ (p = .idle ∨ p = .joined) := by
  rintro (rfl | rfl) <;> cases hbusy

/-- Within a call the owner goes from phase `p` to phase `p'`. -/
private theorem comes_closer {p p' : OwnerPhase} (howner : s.owner = p) (howner' : s'.owner = p')
    (hresult : p'.result = p.result) (hrank : p'.rank n s'.started < p.rank n s.started)
    (hnot : p' ≠ .joiningAcceptor) :
    s'.owner.result = s.owner.result ∧ s'.owner.rank n s'.started < s.owner.rank n s.started
      ∧ s'.owner ≠ .joiningAcceptor := by
  rw [howner, howner']
  exact ⟨hresult, hrank, hnot⟩

theorem OwnerTakes.returns (htakes : s.OwnerTakes s') (h : s.Inv) (hbusy : s.owner.busy = true) :
    s'.owner.result = s.owner.result ∧ s'.owner.rank n s'.started < s.owner.rank n s.started
      ∧ s'.owner ≠ .joiningAcceptor := by
  have hstarted := h.started_le
  cases htakes with
  | refused howner => exact absurd howner (not_busy hbusy)
  | unarmed howner => exact absurd howner (not_busy hbusy)
  | start howner _ => exact absurd howner (not_busy hbusy)
  | join howner => exact absurd howner (not_busy hbusy)
  | startWorker howner hlt =>
    refine comes_closer howner howner rfl ?_ (by rintro ⟨⟩)
    simp only [OwnerPhase.rank]
    omega
  | publish howner _ | launch howner | startWorkerFails howner | launchFails howner =>
    refine comes_closer howner rfl rfl ?_ (by rintro ⟨⟩)
    simp only [OwnerPhase.rank]
    omega
  | unwind howner | joinAcceptor howner _ =>
    refine comes_closer howner rfl rfl ?_ (by rintro ⟨⟩)
    simp only [OwnerPhase.rank, if_true, Bool.false_eq_true, if_false]
    omega
  | stopWorker howner _ | stopped howner _ =>
    refine comes_closer howner rfl rfl ?_ (by rintro ⟨⟩)
    simp only [OwnerPhase.rank]
    omega
  | @wakeWorker u w howner =>
    have hfits := h.fits
    rw [howner] at hfits
    have hw : (w : ℕ) < if u then s.started else n := (hfits.waking u w rfl).2
    refine comes_closer howner rfl rfl ?_ (by rintro ⟨⟩)
    simp only [OwnerPhase.rank]
    generalize (if u then s.started else n) = count at hw ⊢
    omega
  | @joinWorker u w howner hw _ =>
    have hw' : (w : ℕ) < if u then s.started else n := hw
    refine comes_closer howner rfl rfl ?_ (by rintro ⟨⟩)
    simp only [OwnerPhase.rank]
    generalize (if u then s.started else n) = count at hw' ⊢
    omega
  | @joinedWorkers u w howner _ =>
    cases u with
    | true =>
      refine comes_closer howner rfl rfl ?_ (by rintro ⟨⟩)
      simp only [OwnerPhase.rank, if_true]
      omega
    | false =>
      refine comes_closer howner rfl rfl ?_ (by rintro ⟨⟩)
      simp only [OwnerPhase.rank, Bool.false_eq_true, if_false]
      omega
  | clear howner =>
    refine comes_closer howner rfl rfl ?_ (by rintro ⟨⟩)
    simp only [OwnerPhase.rank]
    omega

theorem Returning.keep {p : OwnerPhase} (h : s.Returning p) (hinv : s'.Inv)
    (howner : s'.owner = s.owner) (hstop : s.stopRequested = true → s'.stopRequested = true) :
    s'.Returning p where
  inv := hinv
  stopRequested := fun heq ↦ hstop (h.stopRequested (howner ▸ heq))
  busy := howner.symm ▸ h.busy
  result := howner.symm ▸ h.result

theorem rank_lt_of_awaited (howner : s'.owner = s.owner) (hstarted : s'.started = s.started)
    (hrank : s'.awaitedRank < s.awaitedRank) : s'.rank < s.rank :=
  Prod.Lex.toLex_lt_toLex.mpr (Or.inr ⟨by rw [howner, hstarted], hrank⟩)

/-- A busy owner past the first half of `start` and the wait for the acceptor has an acceptor
without a thread. -/
private theorem Fits.joiningAcceptor_of_live {p : OwnerPhase} (h : s.Fits p) (hbusy : p.busy = true)
    (hlive : s.thread.live = true) : p = .joiningAcceptor := by
  by_contra hp
  have hcases : p.beginning = true ∨ p.resting = true := by
    cases p with
    | idle => cases hbusy
    | joined => cases hbusy
    | joiningAcceptor => exact absurd rfl hp
    | starting => exact Or.inl rfl
    | launching => exact Or.inl rfl
    | failing => exact Or.inl rfl
    | stopping u w => exact Or.inr rfl
    | waking u w => exact Or.inr rfl
    | joining u w => exact Or.inr rfl
    | clearing => exact Or.inr rfl
  have hdead : s.thread.live = false := by
    rcases hcases with hbeginning | hresting
    · rw [(h.beginning hbeginning).1]
      rfl
    · exact h.resting hresting
  rw [hdead] at hlive
  cases hlive

private theorem waiting_of_requester (h : s.turn = .requester) :
    s.owner = .joiningAcceptor ∧ s.thread = .waiting ∧ s.stopCounter = 0 := by
  unfold turn at h
  split at h
  · rename_i howner
    split at h
    · cases h
    · split at h
      · rename_i hwaiting
        exact ⟨howner, hwaiting⟩
      · cases h
  · split at h
    · split at h <;> cases h
    · cases h
  · cases h

/-- To an acceptor that does not need it, a wake-up is nothing. -/
private theorem turn_wakeEvent (h : s.turn ≠ .requester) :
    { s with stopWakes := s.stopWakes - 1, stopCounter := wakeEvent s.stopCounter }.rank = s.rank
      ∧ { s with stopWakes := s.stopWakes - 1, stopCounter := wakeEvent s.stopCounter }.turn
        = s.turn := by
  have hpos := (wakeEvent_pos s.stopCounter).ne'
  cases howner : s.owner with
  | joiningAcceptor =>
    cases hthread : s.thread with
    | waiting =>
      have hcounter : s.stopCounter ≠ 0 := by
        rintro hzero
        refine h ?_
        simp only [turn, howner, hthread, AcceptorPhase.live, hzero, Bool.true_eq_false, if_false,
          and_self, if_true]
      constructor
      · simp only [rank, awaitedRank, howner, acceptorRank, hthread, if_neg hpos, if_neg hcounter]
      · simp only [turn, howner, hthread, hpos, hcounter, and_false]
    | _ =>
      constructor
      · simp only [rank, awaitedRank, howner, acceptorRank, hthread]
      · simp only [turn, howner, hthread, reduceCtorEq, false_and]
  | joining u w => exact ⟨by simp only [rank, awaitedRank, howner]; rfl,
      by simp only [turn, howner]; rfl⟩
  | _ => exact ⟨by simp only [rank, awaitedRank, howner], by simp only [turn, howner]⟩

private theorem advances_stopWake
    (hstep : s.step .stopWake = some s') :
    s'.rank < s.rank ∨ s'.rank = s.rank ∧ s'.turn = s.turn ∧ s.turn ≠ .requester := by
  dsimp only [CacheServer.step] at hstep
  split at hstep
  · cases hstep
    by_cases hturn : s.turn = .requester
    · -- the acceptor waits and has not been woken
      obtain ⟨howner, hwaiting, hcounter⟩ := waiting_of_requester hturn
      refine Or.inl (rank_lt_of_awaited rfl rfl ?_)
      simp only [awaitedRank, howner, acceptorRank, hwaiting, hcounter, if_true,
        if_neg (wakeEvent_pos 0).ne']
      omega
    · obtain ⟨hrank, hturn'⟩ := turn_wakeEvent hturn
      exact Or.inr ⟨hrank, hturn', hturn⟩
  · cases hstep

theorem Returning.acceptor {p : OwnerPhase} (h : s.Returning p) (hproceeds : s.Proceeds s') :
    s'.Returning p ∧ s'.rank < s.rank := by
  have howner := h.inv.fits.joiningAcceptor_of_live h.busy hproceeds.live
  have hframe := hproceeds.frame
  have howner' : s'.owner = s.owner := by rw [hframe]
  have hstop : s'.stopRequested = s.stopRequested := by rw [hframe]
  have hstarted : s'.started = s.started := by rw [hframe]
  refine ⟨h.keep (h.inv.proceeds hproceeds) howner' fun hs ↦ hstop.trans hs,
    rank_lt_of_awaited howner' hstarted ?_⟩
  have hrank := hproceeds.rank (h.stopRequested howner)
  unfold awaitedRank
  rw [howner', howner]
  exact hrank

theorem Returning.worker {p : OwnerPhase} (h : s.Returning p) {w : Fin n} {x : Worker}
    {closed : List AcceptedSocket} (hx : (s.server.workers w).Advances x)
    (hs' : s' = { s with server := (s.server.setWorker w x).close closed }) :
    s'.rank < s.rank ∨ s'.rank = s.rank ∧ s'.turn = s.turn ∧ s.turn ≠ .worker w := by
  have howner' : s'.owner = s.owner := by rw [hs']
  have hstarted : s'.started = s.started := by rw [hs']
  have hworkers : s'.server.workers = Function.update s.server.workers w x := by rw [hs']; rfl
  have hrank : s'.awaitedRank = s.awaitedRank → s'.rank = s.rank := fun heq ↦ by
    rw [rank, rank, howner', hstarted, heq]
  cases howner : s.owner with
  | joining u v =>
    rw [howner] at howner'
    by_cases hv : v < n ∧ v < s.count u
    · have hv' : v < n ∧ v < s'.count u := by rwa [count, hstarted]
      by_cases hvw : (⟨v, hv.1⟩ : Fin n) = w
      · -- the owner waits for this worker, which was asked to stop
        subst hvw
        have hfits := h.inv.fits
        rw [howner] at hfits
        refine Or.inl (rank_lt_of_awaited (howner'.trans howner.symm) hstarted ?_)
        rw [awaitedRank_joining howner' hv', awaitedRank_joining howner hv, hworkers,
          Function.update_self]
        exact hx.rank (hfits.asked ⟨v, hv.1⟩ hv.2)
      -- another worker is none of its business
      · have hsame : s'.server.workers ⟨v, hv.1⟩ = s.server.workers ⟨v, hv.1⟩ := by
          rw [hworkers, Function.update_of_ne hvw]
        refine Or.inr ⟨hrank ?_, ?_, ?_⟩
        · rw [awaitedRank_joining howner' hv', awaitedRank_joining howner hv, hsame]
        · rw [turn_joining howner' hv', turn_joining howner hv, idle, idle, hsame, hstarted]
        · rw [turn_joining howner hv]
          split
          · rintro ⟨⟩
          · exact fun heq ↦ hvw (CacheServerThread.worker.inj heq)
    · have hv' : ¬ (v < n ∧ v < s'.count u) := by rwa [count, hstarted]
      refine Or.inr ⟨hrank ?_, ?_, ?_⟩
      · rw [awaitedRank_past howner' hv', awaitedRank_past howner hv]
      · rw [turn_past howner' hv', turn_past howner hv]
      · rw [turn_past howner hv]
        rintro ⟨⟩
  | joiningAcceptor =>
    -- workers do not touch what the acceptor waits for
    have hframe : s'.thread = s.thread ∧ s'.stopCounter = s.stopCounter
        ∧ s'.server.acceptor = s.server.acceptor := by
      rw [hs']
      exact ⟨rfl, rfl, rfl⟩
    refine Or.inr ⟨hrank ?_, ?_, ?_⟩
    · simp only [awaitedRank, howner', howner, acceptorRank, hframe]
    · simp only [turn, howner', howner, hframe]
    · simp only [turn, howner]
      split
      · rintro ⟨⟩
      · split <;> rintro ⟨⟩
  | _ =>
    refine Or.inr ⟨hrank ?_, ?_, ?_⟩
    · simp only [awaitedRank, howner', howner]
    · simp only [turn, howner', howner]
    · simp only [turn, howner]
      rintro ⟨⟩

/-- **Every step leads towards the end of the call.** -/
theorem returning_step {p : OwnerPhase} {step : CacheServerStep n} (h : s.Returning p)
    (hstep : s.step step = some s') : s'.owner = p ∨ s'.Returning p ∧ (s'.rank < s.rank
      ∨ s'.rank = s.rank ∧ s'.turn = s.turn ∧ step.thread ≠ some s.turn) := by
  have hinv := h.inv.step hstep
  cases step with
  | requestStop =>
    cases hstep
    exact Or.inr ⟨h.keep hinv rfl fun _ ↦ rfl, Or.inr ⟨rfl, rfl, by rintro ⟨⟩⟩⟩
  | stopWake =>
    have hframe : s'.owner = s.owner ∧ s'.stopRequested = s.stopRequested := by
      dsimp only [CacheServer.step] at hstep
      split at hstep
      · cases hstep
        exact ⟨rfl, rfl⟩
      · cases hstep
    refine Or.inr ⟨h.keep hinv hframe.1 fun hs ↦ hframe.2.trans hs,
      (advances_stopWake hstep).imp id ?_⟩
    rintro ⟨hrank, hturn, hne⟩
    exact ⟨hrank, hturn, fun heq ↦ hne (Option.some.inj heq).symm⟩
  | owner step =>
    obtain ⟨hresult, hrank, hne⟩ := (ownerTakes_step hstep).returns h.inv h.busy
    rw [h.result] at hresult
    refine (OwnerPhase.result_cases s'.owner).imp (fun heq ↦ heq.trans hresult) fun hbusy ↦
      ⟨⟨hinv, fun heq ↦ absurd heq hne, hbusy, hresult⟩, Or.inl ?_⟩
    exact Prod.Lex.toLex_lt_toLex.mpr (Or.inl hrank)
  | acceptor step =>
    obtain ⟨hreturning, hrank⟩ := h.acceptor (proceeds_step hstep)
    exact Or.inr ⟨hreturning, Or.inl hrank⟩
  | worker w step =>
    dsimp only [CacheServer.step] at hstep
    split at hstep
    · rename_i hown
      obtain ⟨closed, x, hx, rfl⟩ := handoff_worker hstep
      refine Or.inr ⟨h.keep hinv rfl id, (h.worker (Worker.advances_step hown.2 hx) rfl).imp id ?_⟩
      rintro ⟨hrank, hturn, hne⟩
      refine ⟨hrank, hturn, fun heq ↦ hne ?_⟩
      dsimp only [CacheServerStep.thread] at heq
      split at heq
      · cases heq
      · exact (Option.some.inj heq).symm
    · cases hstep

theorem progress (p : OwnerPhase) :
    Progress (CacheServer.step (n := n)) CacheServerStep.thread (Returning p) (fun s ↦ s.owner = p)
      rank turn where
  enabled := fun _ h ↦ h.enabled
  advances := fun _ _ _ h hstep ↦ returning_step h hstep

/-! ## Fair runs

The rule for progress, applied to the ranks. A fair run may be infinite, so a server that serves for
ever while it is being stopped is among them. -/

theorem Inv.trace (r : Trace (CacheServer.step (n := n))) (h : (r.state 0).Inv) (i : ℕ) :
    (r.state i).Inv := by
  induction i with
  | zero => exact h
  | succ i ih =>
    have hnext := r.next i
    cases haction : r.action i with
    | none =>
      rw [haction] at hnext
      exact Option.some.inj hnext ▸ ih
    | some a =>
      rw [haction] at hnext
      exact ih.step hnext

/-- **Every call of the owner returns**, that of `join` if a stop has been requested by the time it
waits for the acceptor: on every fair run, whatever else happens. -/
theorem calls_return (hn : 0 < n) (r : Trace (CacheServer.step (n := n)))
    (hfair : r.Fair CacheServerStep.thread) (hnew : r.state 0 = new hn) (i : ℕ)
    (hstop : (r.state i).owner = .joiningAcceptor → (r.state i).stopRequested = true) :
    ∃ j, i ≤ j ∧ (r.state j).owner = (r.state i).owner.result := by
  have h := Inv.trace r (hnew ▸ inv_new hn) i
  cases hbusy : (r.state i).owner.busy with
  | false => exact ⟨i, le_rfl, (OwnerPhase.result_of_not_busy hbusy).symm⟩
  | true => exact (progress _).eventually r hfair i ⟨h, hstop, hbusy, rfl⟩

/-- When `join` has returned and no call of `request_stop` is on its way, nothing is left that could
happen of itself. -/
theorem Inv.rests (h : s.Inv) (howner : s.owner = .joined) (hwakes : s.stopWakes = 0)
    (t : CacheServerThread n) : ¬ Enabled CacheServer.step CacheServerStep.thread t s := by
  have hfits := h.fits
  rw [howner] at hfits
  rintro ⟨step, s', hthread, hstep⟩
  cases step with
  | requestStop => cases hthread
  | stopWake =>
    have hnone : s.step .stopWake = none := if_neg (by omega)
    rw [hnone] at hstep
    cases hstep
  | owner step =>
    have hcall : (∃ armed, step = .start armed) ∨ step = .join := by
      cases step with
      | start armed => exact Or.inl ⟨armed, rfl⟩
      | join => exact Or.inr rfl
      | _ => simp [CacheServer.step, ownerStep, howner] at hstep
    rcases hcall with ⟨armed, rfl⟩ | rfl <;> cases hthread
  | acceptor step =>
    have hlive := (proceeds_step hstep).live
    rw [hfits.resting rfl] at hlive
    cases hlive
  | worker w step =>
    dsimp only [CacheServer.step] at hstep
    split at hstep
    · rename_i hown
      obtain ⟨closed, x, hx, -⟩ := handoff_worker hstep
      exact (idle_iff.mp (hfits.ended w w.isLt)).elim (fun hle ↦ by omega)
        (Worker.advances_step hown.2 hx).unfinished
    · cases hstep

/-- A server of one worker is asked to stop while all its threads wait. -/
private def stoppedWhileWaiting (w : Fin 1) : List (CacheServerStep 1) :=
  [.owner (.start true), .owner (.startWorker true), .owner .publish, .owner (.launch true),
    .acceptor .check, .worker w .check, .owner .join, .requestStop, .stopWake,
    .acceptor (.epollWait [.stop]), .acceptor .handleEvent, .acceptor .endBatch, .acceptor .check,
    .acceptor .leave, .owner .joinAcceptor, .owner .stopWorker, .owner .wakeWorker,
    .owner .stopWorker, .worker w (.epollWait [.wakeup]), .worker w (.handleEvent true),
    .worker w .endBatch, .worker w .check, .worker w .clearConnections, .worker w .clearPending,
    .owner .joinWorker, .owner .joinWorker, .owner .clear]

theorem calls_return_stopped_while_waiting : ∃ r : Trace (CacheServer.step (n := 1)),
    r.Fair CacheServerStep.thread ∧ (r.state 8).owner = .joiningAcceptor
      ∧ ∃ j, 8 ≤ j ∧ (r.state j).owner = .joined := by
  have heval : ((new Nat.one_pos).run (stoppedWhileWaiting 0)).map
      (fun s ↦ (s.owner, s.stopWakes)) = some (.joined, 0) := by
    decide +kernel
  have heval' : ((new Nat.one_pos).run ((stoppedWhileWaiting 0).take 8)).map
      (fun s ↦ (s.owner, s.stopRequested)) = some (.joiningAcceptor, true) := by
    decide +kernel
  obtain ⟨s, hrun, hvalues⟩ := Option.map_eq_some_iff.mp heval
  obtain ⟨s', hrun', hvalues'⟩ := Option.map_eq_some_iff.mp heval'
  rw [Prod.mk.injEq] at hvalues hvalues'
  set r := Trace.ofList CacheServer.step (new Nat.one_pos) s _ hrun
  have hfair : r.Fair CacheServerStep.thread :=
    Trace.fair_ofList hrun ((Inv.run _ (inv_new Nat.one_pos) hrun).rests hvalues.1 hvalues.2)
  have hstate : r.state 8 = s' := by
    show ((new Nat.one_pos).run ((stoppedWhileWaiting 0).take 8)).getD s = s'
    rw [hrun', Option.getD_some]
  refine ⟨r, hfair, hstate ▸ hvalues'.1, ?_⟩
  obtain ⟨j, hj, howner⟩ := calls_return Nat.one_pos r hfair rfl 8 fun _ ↦ hstate ▸ hvalues'.2
  rw [hstate, hvalues'.1] at howner
  exact ⟨j, hj, howner⟩

end CacheServer

end HighCache
