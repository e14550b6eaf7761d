import HighCache.Lib.Placement
import HighCache.Net.WorkerSafety

/-!
# The handoff is safe

In every state that a run of the handoff leads to, every socket has one owner and is closed at most
once, no worker waits with sockets to take and no wake-up due, and an event reaches the connection
it was reported for (`Server.run_safe`). The first is a matter of the whole server: each step moves
sockets from one place to another, so the lists of the places follow a function from sockets to
places. The others are matters of one worker, with the acceptor as its surroundings.
-/

namespace HighCache

open KeyedList Placement

/-! ## What the server keeps

The lists of all places follow one function. A step of a worker is one of its transfers, so that the
rules of moving things apply; the steps of the acceptor are four more moves. -/

namespace Server

variable {n : ℕ} {s s' : Server n}

/-- Every accepted socket has one place, and no other socket has any. -/
def Owned (s : Server n) : Prop :=
  ∃ place, Placed s.sockets place ∧ ∀ socket, socket ∈ s.accepted ↔ place socket ≠ none

theorem Owned.move (h : s.Owned) (haccepted : s'.accepted = s.accepted) (p q : Place n)
    (moved : List AcceptedSocket) (hpq : p ≠ q) (hp : (s.sockets p).Perm (moved ++ s'.sockets p))
    (hq : (s'.sockets q).Perm (moved ++ s.sockets q))
    (hrest : ∀ r, r ≠ p → r ≠ q → s'.sockets r = s.sockets r) : s'.Owned := by
  obtain ⟨place, hplaced, hall⟩ := h
  refine ⟨_, hplaced.move hpq hp hq hrest, fun socket ↦ ?_⟩
  rw [haccepted, hall]
  by_cases hmoved : socket ∈ moved
  · have hplace : place socket = some p :=
      hplaced.mem_iff.mp (hp.symm.subset (List.mem_append_left _ hmoved))
    simp [hmoved, hplace]
  · simp [hmoved]

private theorem Owned.still (h : s.Owned) (haccepted : s'.accepted = s.accepted)
    (hsockets : ∀ p, s'.sockets p = s.sockets p) : s'.Owned := by
  obtain ⟨place, hplaced, hall⟩ := h
  refine ⟨place, fun socket p ↦ ?_, fun socket ↦ ?_⟩
  · rw [hsockets p]
    exact hplaced socket p
  · rw [haccepted]
    exact hall socket

/-- The invariant of the server. -/
structure Inv (s : Server n) : Prop where
  placed : s.Owned
  ids : ∀ socket ∈ s.accepted, socket.id < s.accepted.length
  /-- Sockets that are open have different descriptors. -/
  fds : ∀ a ∈ s.accepted, a ∉ s.closed → ∀ b ∈ s.accepted, b ∉ s.closed → a.fd = b.fd → a = b
  workers : ∀ w, (s.workers w).Sound (s.acceptor = .pushed w)

theorem inv_new (h : 0 < n) : (new h).Inv where
  placed := by
    refine ⟨fun _ ↦ none, fun socket p ↦ ?_, fun socket ↦ ?_⟩
    · rcases p with _ | ⟨w, _ | _ | _⟩ | _ <;> rfl
    · exact iff_of_false List.not_mem_nil (not_not.mpr rfl)
  ids := fun _ hmem ↦ absurd hmem List.not_mem_nil
  fds := fun _ hmem ↦ absurd hmem List.not_mem_nil
  workers := fun _ ↦ Worker.sound_new _

/-- The place of a spot of a worker. -/
def placeOf (w : Fin n) : Option Spot → Place n
  | some spot => .worker w spot
  | none => .closed

private theorem placeOf_injective (w : Fin n) : Function.Injective (placeOf w) := by
  intro p q heq
  cases p with
  | none =>
    cases q with
    | none => rfl
    | some spot => cases heq
  | some spot =>
    cases q with
    | none => cases heq
    | some spot' =>
      cases heq
      rfl

theorem Owned.worker (h : s.Owned) {w : Fin n} {x : Worker} {closed : List AcceptedSocket}
    {p q : Option Spot} {moved : List AcceptedSocket}
    (htransfer : Worker.Transfer (s.workers w) x closed p q moved) :
    ((s.setWorker w x).close closed).Owned := by
  -- before the step and after it, the list of a place is what the worker adds to a fixed rest
  have hsame : Function.update s.workers w x w = x := Function.update_self ..
  have hbefore : ∀ r, ∃ tail, s.sockets (placeOf w r) = (s.workers w).spots [] r ++ tail
      ∧ ((s.setWorker w x).close closed).sockets (placeOf w r) = x.spots closed r ++ tail := by
    intro r
    cases r with
    | none => exact ⟨s.closed, rfl, rfl⟩
    | some spot =>
      refine ⟨[], (List.append_nil _).symm, ?_⟩
      rw [List.append_nil]
      exact congrArg (fun y ↦ Worker.sockets y spot) hsame
  refine h.move rfl (placeOf w p) (placeOf w q) moved ?_ ?_ ?_ ?_
  · exact (placeOf_injective w).ne htransfer.ne
  · obtain ⟨tail, hs, hs'⟩ := hbefore p
    rw [hs, hs', ← List.append_assoc]
    exact htransfer.source.append_right tail
  · obtain ⟨tail, hs, hs'⟩ := hbefore q
    rw [hs, hs', ← List.append_assoc]
    exact htransfer.target.append_right tail
  · intro r hp hq
    cases r with
    | hand => rfl
    | closed =>
      obtain ⟨tail, hs, hs'⟩ := hbefore none
      have hrest := htransfer.rest none (fun heq ↦ hp (heq ▸ rfl)) fun heq ↦ hq (heq ▸ rfl)
      exact hs'.trans (hrest ▸ hs.symm)
    | worker w' spot =>
      by_cases hw : w' = w
      · subst hw
        have hrest := htransfer.rest (some spot) (fun heq ↦ hp (heq ▸ rfl)) fun heq ↦ hq (heq ▸ rfl)
        exact (congrArg (fun y ↦ Worker.sockets y spot) hsame).trans hrest
      · exact congrArg (fun y ↦ Worker.sockets y spot) (Function.update_of_ne hw _ _)

private theorem Inv.connections_fds (h : s.Inv) (w : Fin n) : ∀ a ∈ (s.workers w).connections,
    ∀ b ∈ (s.workers w).connections, a.fd = b.fd → a = b := by
  obtain ⟨place, hplaced, hall⟩ := h.placed
  have hopen : ∀ a ∈ (s.workers w).connections, a ∈ s.accepted ∧ a ∉ s.closed := by
    intro a ha
    have hplace : place a = some (.worker w .connections) := hplaced.mem_iff.mp ha
    refine ⟨(hall a).mpr (by rw [hplace]; rintro ⟨⟩), fun hclosed ↦ ?_⟩
    exact (hplaced.unique hplace).2 .closed (by rintro ⟨⟩) hclosed
  intro a ha b hb
  exact h.fds a (hopen a ha).1 (hopen a ha).2 b (hopen b hb).1 (hopen b hb).2

/-- Closing more sockets leaves fewer open. -/
private theorem Inv.fds_of_closed (h : s.Inv) {closed : List AcceptedSocket}
    (hclosed : s.closed ⊆ closed) :
    ∀ a ∈ s.accepted, a ∉ closed → ∀ b ∈ s.accepted, b ∉ closed → a.fd = b.fd → a = b :=
  fun a ha ha' b hb hb' ↦ h.fds a ha (fun hmem ↦ ha' (hclosed hmem)) b hb fun hmem ↦
    hb' (hclosed hmem)

theorem Inv.worker (h : s.Inv) {w : Fin n} {step : WorkerStep} {closed : List AcceptedSocket}
    {x : Worker} (hstep : (s.workers w).step step = some (closed, x)) :
    ((s.setWorker w x).close closed).Inv where
  placed := by
    obtain ⟨p, q, moved, htransfer⟩ := (Worker.takes_step hstep).transfer
    exact h.placed.worker htransfer
  ids := h.ids
  fds := h.fds_of_closed (List.subset_append_right _ _)
  workers := by
    intro w'
    show (Function.update s.workers w x w').Sound _
    by_cases hw : w' = w
    · subst hw
      rw [Function.update_self]
      exact (h.workers w').takes (h.connections_fds w') (Worker.takes_step hstep)
    · rw [Function.update_of_ne hw]
      exact h.workers w'

theorem Inv.drop (h : s.Inv) {socket : AcceptedSocket} {w : Fin n}
    (hacceptor : s.acceptor = .holding socket w) :
    ({ s with acceptor := .idle }.close [socket]).Inv where
  placed := by
    refine h.placed.move rfl .hand .closed [socket] (by rintro ⟨⟩) ?_ (List.Perm.refl _)
      fun r hp hq ↦ ?_
    · show s.acceptor.hand.Perm _
      rw [hacceptor]
      exact List.Perm.refl _
    · cases r with
      | hand => exact absurd rfl hp
      | closed => exact absurd rfl hq
      | worker w' spot => rfl
  ids := h.ids
  fds := h.fds_of_closed (List.subset_cons_self _ _)
  workers := fun w' ↦ (h.workers w').mono fun hpushed ↦ by
    rw [hacceptor] at hpushed
    cases hpushed

theorem Inv.accept (h : s.Inv) (hacceptor : s.acceptor = .idle) {fd : ℕ}
    (hfree : s.isFree fd = true) (w : Fin n) (next : UInt64) :
    Inv { s with
      acceptor := .holding ⟨s.accepted.length, fd⟩ w
      nextWorker := next
      accepted := ⟨s.accepted.length, fd⟩ :: s.accepted } := by
  obtain ⟨place, hplaced, hall⟩ := h.placed
  have hnew : (⟨s.accepted.length, fd⟩ : AcceptedSocket) ∉ s.accepted :=
    fun hmem ↦ Nat.lt_irrefl _ (h.ids _ hmem)
  -- the kernel gives out a descriptor only when nobody has it open
  have hfree' : ∀ a ∈ s.accepted, a ∉ s.closed → a.fd ≠ fd := by
    intro a ha hopen
    have := List.all_eq_true.mp hfree a ha
    simpa [hopen] using this
  refine ⟨⟨_, hplaced.enter (not_not.mp (mt (hall _).mpr hnew)) (p := .hand) ?_ ?_, ?_⟩, ?_, ?_, ?_⟩
  · show [_] = _ :: s.acceptor.hand
    rw [hacceptor]
    rfl
  · intro r hr
    cases r with
    | hand => exact absurd rfl hr
    | closed => rfl
    | worker w' spot => rfl
  · intro socket
    rw [List.mem_cons, hall]
    by_cases hsocket : socket = ⟨s.accepted.length, fd⟩
    · subst hsocket
      simp
    · simp [hsocket]
  · intro socket hmem
    rw [List.length_cons]
    rcases List.mem_cons.mp hmem with rfl | hmem
    · exact Nat.lt_succ_self _
    · exact Nat.lt_succ_of_lt (h.ids socket hmem)
  · intro a ha ha' b hb hb' heq
    rcases List.mem_cons.mp ha with rfl | ha
    · rcases List.mem_cons.mp hb with rfl | hb
      · rfl
      · exact absurd heq.symm (hfree' b hb hb')
    · rcases List.mem_cons.mp hb with rfl | hb
      · exact absurd heq (hfree' a ha ha')
      · exact h.fds a ha ha' b hb hb' heq
  · exact fun w' ↦ (h.workers w').mono fun hpushed ↦ by
      rw [hacceptor] at hpushed
      cases hpushed

/-- The socket in the hand of the acceptor goes to `pending_`. -/
theorem Inv.push (h : s.Inv) {socket : AcceptedSocket} {w : Fin n}
    (hacceptor : s.acceptor = .holding socket w) (hstop : (s.workers w).stopRequested = false) :
    ({ s with acceptor := .pushed w }.setWorker w
      { s.workers w with pending := (s.workers w).pending ++ [socket] }).Inv := by
  set x : Worker := { s.workers w with pending := (s.workers w).pending ++ [socket] } with hx
  have hsame : Function.update s.workers w x w = x := Function.update_self ..
  refine ⟨?_, h.ids, h.fds, fun w' ↦ ?_⟩
  · refine h.placed.move rfl .hand (.worker w .pending) [socket] (by rintro ⟨⟩) ?_ ?_
      fun r hp hq ↦ ?_
    · show s.acceptor.hand.Perm _
      rw [hacceptor]
      exact List.Perm.refl _
    · show (Function.update s.workers w x w).pending.Perm _
      rw [hsame]
      exact List.perm_append_comm
    · cases r with
      | hand => exact absurd rfl hp
      | closed => rfl
      | worker w' spot =>
        show (Function.update s.workers w x w').sockets spot = (s.workers w').sockets spot
        by_cases hw : w' = w
        · subst hw
          rw [hsame]
          cases spot with
          | pending => exact absurd rfl hq
          | installing => rfl
          | connections => rfl
        · rw [Function.update_of_ne hw]
  · show (Function.update s.workers w x w').Sound _
    by_cases hw : w' = w
    · subst hw
      rw [hsame]
      have hsound := h.workers w'
      exact { hsound with
        woken := fun _ _ _ ↦ Or.inr (Or.inl rfl)
        cleared := fun hf hphase ↦ by
          -- a worker that is through was asked to stop
          have hleft := hsound.left hf (show (s.workers w').phase.Left by
            rw [show (s.workers w').phase = .finished from hphase]
            exact trivial)
          rw [hstop] at hleft
          cases hleft }
    · rw [Function.update_of_ne hw]
      refine (h.workers w').mono fun hpushed ↦ ?_
      rw [hacceptor] at hpushed
      cases hpushed

theorem Inv.wake (h : s.Inv) {w : Fin n} (hacceptor : s.acceptor = .pushed w) :
    ({ s with acceptor := .idle }.setWorker w
      { s.workers w with counter := wakeEvent (s.workers w).counter }).Inv := by
  set x : Worker := { s.workers w with counter := wakeEvent (s.workers w).counter } with hx
  refine ⟨h.placed.still rfl fun r ↦ ?_, h.ids, h.fds, fun w' ↦ ?_⟩
  · cases r with
    | hand =>
      show [] = s.acceptor.hand
      rw [hacceptor]
      rfl
    | closed => rfl
    | worker w' spot =>
      show (Function.update s.workers w x w').sockets spot = (s.workers w').sockets spot
      by_cases hw : w' = w
      · subst hw
        rw [Function.update_self]
        cases spot <;> rfl
      · rw [Function.update_of_ne hw]
  · show (Function.update s.workers w x w').Sound _
    by_cases hw : w' = w
    · subst hw
      rw [Function.update_self]
      exact { h.workers w' with
        woken := fun _ _ _ ↦ Or.inl (wakeEvent_pos _)
        stopped := fun _ _ ↦ Or.inl (wakeEvent_pos _) }
    · rw [Function.update_of_ne hw]
      refine (h.workers w').mono fun hpushed ↦ ?_
      rw [hacceptor] at hpushed
      exact absurd (Acceptor.pushed.inj hpushed).symm hw

/-! ## Every step and every run -/

/-- **One step of any thread.** -/
theorem Inv.step (h : s.Inv) {step : ServerStep n} (hstep : s.step step = some s') : s'.Inv := by
  cases step with
  | accept fd =>
    dsimp only [Server.step] at hstep
    split at hstep
    · rename_i hacceptor
      split at hstep
      · rename_i hfree
        cases hstep
        exact h.accept hacceptor hfree _ _
      · cases hstep
    · cases hstep
  | push =>
    dsimp only [Server.step] at hstep
    split at hstep
    · rename_i socket w hacceptor
      split at hstep
      · cases hstep
        exact h.drop hacceptor
      · rename_i hstop
        cases hstep
        exact h.push hacceptor (Bool.not_eq_true _ ▸ hstop)
    · cases hstep
  | pushThrows =>
    dsimp only [Server.step] at hstep
    split at hstep
    · rename_i hacceptor
      cases hstep
      exact h.drop hacceptor
    · cases hstep
  | wake =>
    dsimp only [Server.step] at hstep
    split at hstep
    · rename_i hacceptor
      cases hstep
      exact h.wake hacceptor
    · cases hstep
  | worker w step =>
    dsimp only [Server.step] at hstep
    split at hstep
    · rename_i hworker
      cases hstep
      exact h.worker hworker
    · cases hstep

theorem Inv.run : ∀ (steps : List (ServerStep n)) {s s' : Server n}, s.Inv →
    s.run steps = some s' → s'.Inv := by
  intro steps
  induction steps with
  | nil =>
    intro s s' h hrun
    cases hrun
    exact h
  | cons step steps ih =>
    intro s s' h hrun
    rw [Server.run, List.foldlM_cons] at hrun
    obtain ⟨s₁, hstep, hrest⟩ := Option.bind_eq_some_iff.mp hrun
    exact ih (h.step hstep) hrest

/-- **What is promised of the handoff.** -/
structure Safe (s : Server n) : Prop where
  /-- Every accepted socket is at one place, there once, … -/
  owner : ∀ socket ∈ s.accepted, ∃ place, (s.sockets place).count socket = 1
    ∧ ∀ other, other ≠ place → socket ∉ s.sockets other
  /-- … and none is closed twice. -/
  closed_once : s.closed.Nodup
  /-- A worker that has sockets to take and is not to stop has a positive eventfd, or is about to
  get one, or has drained it and is about to take them. -/
  woken : ∀ w, (s.workers w).failed = false → (s.workers w).stopRequested = false →
    (s.workers w).pending ≠ [] →
      0 < (s.workers w).counter ∨ s.acceptor = .pushed w ∨ (s.workers w).phase.Drained
  /-- A worker that waits with sockets to take, or is to stop, is woken or about to be. -/
  unblocked : ∀ w, (s.workers w).failed = false → (s.workers w).phase = .waiting →
    (s.workers w).pending ≠ [] ∨ (s.workers w).stopRequested = true →
      0 < (s.workers w).counter ∨ s.acceptor = .pushed w ∨ 0 < (s.workers w).stopWakes
  /-- The connection that an event of a batch finds was there when the batch came, and is the one
  the event was reported for. -/
  applied : ∀ w source events seen present,
    (s.workers w).phase = .batch (.connection source :: events) seen present →
    ∀ socket, find AcceptedSocket.fd source.fd (s.workers w).connections = some socket →
      socket ∈ present ∧ socket = source
  /-- A worker that is through leaves nothing behind. -/
  unstranded : ∀ w spot, (s.workers w).failed = false → (s.workers w).phase = .finished →
    (s.workers w).sockets spot = []

/-- **Every run of the handoff is safe**, with any number of workers and sockets. -/
theorem run_safe (hn : 0 < n) (steps : List (ServerStep n)) {s : Server n}
    (hrun : (new hn).run steps = some s) : s.Safe := by
  have h := Inv.run steps (inv_new hn) hrun
  obtain ⟨place, hplaced, hall⟩ := h.placed
  refine ⟨fun socket hsocket ↦ ?_, hplaced.nodup .closed, fun w ↦ (h.workers w).woken,
    fun w hf hphase hneed ↦ ?_, fun w source events seen present hphase socket hfind ↦ ?_,
    fun w spot hf hphase ↦ ?_⟩
  · obtain ⟨p, hp⟩ := Option.ne_none_iff_exists'.mp ((hall socket).mp hsocket)
    exact ⟨p, hplaced.unique hp⟩
  · by_cases hstop : (s.workers w).stopRequested = true
    · exact ((h.workers w).stopped hstop hphase).imp id Or.inr
    · have hpending := hneed.resolve_right hstop
      have hwoken := (h.workers w).woken hf (Bool.not_eq_true _ ▸ hstop) hpending
      rw [hphase] at hwoken
      exact hwoken.imp id (Or.imp_right False.elim)
  · have hcurrent := (h.workers w).current
    rw [hphase] at hcurrent
    obtain ⟨hconnections, hevents, hfds⟩ := hcurrent
    have hpresent := hconnections (mem_of_find hfind)
    exact ⟨hpresent, hfds socket hpresent source (hevents source List.mem_cons_self)
      (key_of_find hfind)⟩
  · cases spot with
    | pending => exact (h.workers w).cleared hf hphase
    | installing =>
      show (s.workers w).phase.localVector = []
      rw [hphase]
      rfl
    | connections =>
      refine (h.workers w).disconnected ?_
      rw [hphase]
      exact trivial

/-- A socket goes to the first of two workers, which installs it and closes it; the next one gets
its descriptor. -/
private def reusedDescriptor (w : Fin 2) : List (ServerStep 2) :=
  [.worker w .check, .accept 7, .push, .wake, .worker w (.epollWait [.wakeup]),
    .worker w (.handleEvent true), .worker w .endBatch, .worker w .swapPending,
    .worker w (.install .done), .worker w .endInstall, .worker w .check,
    .worker w (.epollWait [.connection ⟨0, 7⟩]), .worker w (.handleEvent false), .accept 7, .push]

theorem run_safe_reused_descriptor :
    ∃ s, (new Nat.two_pos).run (reusedDescriptor 0) = some s ∧ s.closed = [⟨0, 7⟩]
      ∧ s.accepted = [⟨1, 7⟩, ⟨0, 7⟩] ∧ s.acceptor = .pushed 1 ∧ s.Safe := by
  have heval : ((new Nat.two_pos).run (reusedDescriptor 0)).map
        (fun s ↦ (s.closed, s.accepted, s.acceptor))
      = some ([⟨0, 7⟩], [⟨1, 7⟩, ⟨0, 7⟩], .pushed 1) := by
    decide +kernel
  obtain ⟨s, hrun, hvalues⟩ := Option.map_eq_some_iff.mp heval
  rw [Prod.mk.injEq, Prod.mk.injEq] at hvalues
  exact ⟨s, hrun, hvalues.1, hvalues.2.1, hvalues.2.2, run_safe Nat.two_pos _ hrun⟩

end Server

end HighCache
