import HighCache.Net.CacheServer
import HighCache.Net.HandoffSafety

/-!
# The steps of the acceptor

What a step of the thread of the acceptor does to the rest of the server: it may hand a socket to a
worker, but it does not touch what a worker was asked nor where it is (`Server.Spares`), and nothing
else in the server but its own data changes (`CacheServer.Proceeds`).

An acceptor that was asked to stop has a bounded number of steps left: the events of a batch, and
for each of them one round in `accept_connections`, with one handoff.
-/

namespace HighCache

/-! ## The handoff

What a step of the acceptor on the handoff can do to a worker: add a socket to `pending_`, or add to
its eventfd. It never takes anything. -/

namespace Server

variable {n : ℕ} {s s' : Server n}

/-- The acceptor does not touch what a worker was asked, nor where it is. -/
structure Spares (s s' : Server n) : Prop where
  stopRequested : ∀ w, (s'.workers w).stopRequested = (s.workers w).stopRequested
  stopWakes : ∀ w, (s'.workers w).stopWakes = (s.workers w).stopWakes
  phase : ∀ w, (s'.workers w).phase = (s.workers w).phase

theorem spares_of_workers (h : s'.workers = s.workers) : s.Spares s' :=
  ⟨fun _ ↦ by rw [h], fun _ ↦ by rw [h], fun _ ↦ by rw [h]⟩

private theorem spares_setWorker {w : Fin n} {x : Worker}
    (hstop : x.stopRequested = (s.workers w).stopRequested)
    (hwakes : x.stopWakes = (s.workers w).stopWakes) (hphase : x.phase = (s.workers w).phase) :
    s.Spares (s.setWorker w x) := by
  have hworker : ∀ {α : Type} (f : Worker → α), f x = f (s.workers w) →
      ∀ v, f ((s.setWorker w x).workers v) = f (s.workers v) := by
    intro α f hf v
    show f (Function.update s.workers w x v) = _
    by_cases hv : v = w
    · subst hv
      rw [Function.update_self, hf]
    · rw [Function.update_of_ne hv]
  exact ⟨hworker _ hstop, hworker _ hwakes, hworker _ hphase⟩

private theorem spares_push (h : s.step .push = some s') :
    s.Spares s' ∧ s'.accepted = s.accepted ∧ s.acceptor.hand.length = 1
      ∧ s'.acceptor.hand.length = 0 := by
  dsimp only [Server.step] at h
  split at h
  · rename_i socket w hacceptor
    rw [hacceptor]
    split at h
    · cases h
      exact ⟨spares_of_workers rfl, rfl, rfl, rfl⟩
    · cases h
      have hspares := spares_setWorker (s := { s with acceptor := .pushed w }) (w := w)
        (x := { s.workers w with pending := (s.workers w).pending ++ [socket] }) rfl rfl rfl
      exact ⟨⟨hspares.1, hspares.2, hspares.3⟩, rfl, rfl, rfl⟩
  · cases h

private theorem spares_pushThrows (h : s.step .pushThrows = some s') :
    s.Spares s' ∧ s'.accepted = s.accepted ∧ s'.acceptor = .idle := by
  dsimp only [Server.step] at h
  split at h
  · cases h
    exact ⟨spares_of_workers rfl, rfl, rfl⟩
  · cases h

private theorem spares_wake (h : s.step .wake = some s') :
    s.Spares s' ∧ s'.accepted = s.accepted ∧ s'.acceptor = .idle := by
  dsimp only [Server.step] at h
  split at h
  · rename_i w hacceptor
    cases h
    have hspares := spares_setWorker (s := { s with acceptor := .idle }) (w := w)
      (x := { s.workers w with counter := wakeEvent (s.workers w).counter }) rfl rfl rfl
    exact ⟨⟨hspares.1, hspares.2, hspares.3⟩, rfl, rfl⟩
  · cases h

private theorem spares_accept {fd : ℕ} (h : s.step (.accept fd) = some s') :
    s.Spares s' ∧ s'.acceptor.hand.length = 1 := by
  dsimp only [Server.step] at h
  split at h
  · split at h
    · cases h
      exact ⟨spares_of_workers rfl, rfl⟩
    · cases h
  · cases h

end Server

/-- The phases in which the acceptor has a thread. -/
def AcceptorPhase.live : AcceptorPhase → Bool
  | .unstarted => false
  | .exited => false
  | _ => true

/-- The phases in which the acceptor is in `enqueue`. -/
def AcceptorPhase.enqueues : AcceptorPhase → Bool
  | .enqueueing _ => true
  | _ => false

/-! ## What a step does

A lemma for each label, since the phases after a step are different for each. What they have in
common is `Proceeds`, which is what the invariant of the server and the rank of the acceptor
need. -/

namespace CacheServer

variable {n : ℕ} {s s' : CacheServer n}

theorem halted_eq_not_live (s : CacheServer n) : s.halted = !s.thread.live := by
  unfold halted
  cases s.thread <;> rfl

/-- The steps the acceptor has left at most, once it is asked to stop. -/
def acceptorRank (s : CacheServer n) : ℕ :=
  match s.thread with
  | .unstarted => 0
  | .exited => 0
  | .leaving => 1
  | .checking => 2
  | .batch rest => 3 + 2 * rest.length
  | .accepting rest => 4 + 2 * rest.length
  | .enqueueing rest => 5 + 2 * rest.length + s.server.acceptor.hand.length
  | .calling rest => 7 + 2 * rest.length
  | .waiting => 4 + 2 * maxEvents + if s.stopCounter = 0 then 1 else 0

/-- The thread of the acceptor is in `enqueue` when the handoff says so. -/
def Synced (s : CacheServer n) : Prop := s.server.acceptor = .idle ↔ s.thread.enqueues = false

/-- What a step of the acceptor does. -/
structure Proceeds (s s' : CacheServer n) : Prop where
  frame : s' = { s with
    server := s'.server
    thread := s'.thread
    stopCounter := s'.stopCounter
    running := s'.running }
  live : s.thread.live = true
  unhalted : s'.thread ≠ .unstarted
  inv : s.server.Inv → s'.server.Inv
  spares : s.server.Spares s'.server
  synced : s.Synced → s'.Synced
  waiting : s'.thread = .waiting → s.stopRequested = false
  running : s'.running = (s.running && s'.thread.live)
  rank : s.stopRequested = true → s'.acceptorRank < s.acceptorRank

/-- A step that hands nothing over. -/
theorem proceeds_of_phase {p q : AcceptorPhase} {counter : ℕ} (hthread : s.thread = p)
    (hp : p.live = true ∧ p.enqueues = false) (hq : q.live = true ∧ q.enqueues = false)
    (hwaiting : q = .waiting → s.stopRequested = false)
    (hrank : s.stopRequested = true → { s with thread := q, stopCounter := counter }.acceptorRank
      < { s with thread := p }.acceptorRank) :
    s.Proceeds { s with thread := q, stopCounter := counter } where
  frame := rfl
  live := hthread ▸ hp.1
  unhalted := fun heq ↦ by
    have hlive := hq.1
    rw [show q = .unstarted from heq] at hlive
    cases hlive
  inv := id
  spares := Server.spares_of_workers rfl
  synced := fun h ↦ by
    have hold : s.server.acceptor = .idle := h.mpr (hthread ▸ hp.2)
    exact iff_of_true hold hq.2
  waiting := hwaiting
  running := by
    show s.running = (s.running && q.live)
    rw [hq.1, Bool.and_true]
  rank := by
    subst hthread
    exact hrank

theorem handoff_eq_some {step : ServerStep n} (h : s.handoff step = some s') :
    s.server.step step = some s'.server ∧ s' = { s with server := s'.server } := by
  obtain ⟨server, hstep, rfl⟩ := Option.map_eq_some_iff.mp h
  exact ⟨hstep, rfl⟩

private theorem proceeds_accept {rest : List AcceptorEvent} {fd : ℕ}
    (hthread : s.thread = .calling rest)
    (h : { s with thread := .enqueueing rest }.handoff (.accept fd) = some s') : s.Proceeds s' := by
  obtain ⟨hstep, hs'⟩ := handoff_eq_some h
  obtain ⟨hspares, hhand⟩ := Server.spares_accept hstep
  have hthread' : s'.thread = .enqueueing rest := by rw [hs']
  refine ⟨?_, by rw [hthread]; rfl, by rw [hthread']; rintro ⟨⟩, fun hinv ↦ hinv.step hstep,
    hspares, fun _ ↦ ?_, fun heq ↦ ?_, ?_, fun _ ↦ ?_⟩
  · rw [hs']
  · refine iff_of_false (fun hidle ↦ ?_) (by rw [hthread']; rintro ⟨⟩)
    rw [hidle] at hhand
    cases hhand
  · rw [hthread'] at heq
    cases heq
  · rw [hs']
    exact (Bool.and_true _).symm
  · simp only [acceptorRank, hthread, hthread', hhand]
    omega

theorem proceeds_handed {rest : List AcceptorEvent} {step : ServerStep n}
    (hthread : s.thread = .enqueueing rest) (hstep : s.server.step step = some s'.server)
    (hs' : s' = { s with server := s'.server, thread := .accepting rest })
    (hspares : s.server.Spares s'.server) (hidle : s'.server.acceptor = .idle) :
    s.Proceeds s' := by
  have hthread' : s'.thread = .accepting rest := by rw [hs']
  refine ⟨?_, by rw [hthread]; rfl, by rw [hthread']; rintro ⟨⟩, fun hinv ↦ hinv.step hstep,
    hspares, fun _ ↦ iff_of_true hidle (by rw [hthread']; rfl), fun heq ↦ ?_, ?_, fun _ ↦ ?_⟩
  · rw [hs']
  · rw [hthread'] at heq
    cases heq
  · rw [hs']
    exact (Bool.and_true _).symm
  · simp only [acceptorRank, hthread, hthread']
    omega

private theorem proceeds_push {rest : List AcceptorEvent} (hthread : s.thread = .enqueueing rest)
    (h : (s.handoff .push).map (fun s ↦ if s.server.acceptor = .idle then
      { s with thread := .accepting rest } else s) = some s') : s.Proceeds s' := by
  obtain ⟨s₁, hhandoff, hs'⟩ := Option.map_eq_some_iff.mp h
  obtain ⟨hstep, hs₁⟩ := handoff_eq_some hhandoff
  obtain ⟨hspares, -, hhand, hhand'⟩ := Server.spares_push hstep
  split at hs'
  · rename_i hidle
    subst hs'
    exact proceeds_handed hthread hstep (by rw [hs₁]) hspares hidle
  · rename_i hbusy
    subst hs'
    have hthread' : s₁.thread = .enqueueing rest := by rw [hs₁, ← hthread]
    refine ⟨?_, by rw [hthread]; rfl, by rw [hthread']; rintro ⟨⟩, fun hinv ↦ hinv.step hstep,
      hspares, fun _ ↦ iff_of_false hbusy (by rw [hthread']; rintro ⟨⟩), fun heq ↦ ?_, ?_,
      fun _ ↦ ?_⟩
    · rw [hs₁]
    · rw [hthread'] at heq
      cases heq
    · rw [hthread', hs₁]
      exact (Bool.and_true _).symm
    · simp only [acceptorRank, hthread, hthread', hhand, hhand']
      omega

private theorem proceeds_check (h : s.acceptorStep .check = some s') : s.Proceeds s' := by
  dsimp only [acceptorStep] at h
  split at h <;> cases h
  rename_i hthread
  by_cases hstop : s.stopRequested = true
  · rw [if_pos hstop]
    exact proceeds_of_phase hthread ⟨rfl, rfl⟩ ⟨rfl, rfl⟩ (by rintro ⟨⟩) fun _ ↦
      Nat.lt_succ_self _
  · rw [if_neg hstop]
    exact proceeds_of_phase hthread ⟨rfl, rfl⟩ ⟨rfl, rfl⟩ (fun _ ↦ Bool.not_eq_true _ ▸ hstop)
      fun hstop' ↦ absurd hstop' hstop

private theorem proceeds_epollWait {events : List AcceptorEvent}
    (h : s.acceptorStep (.epollWait events) = some s') : s.Proceeds s' := by
  dsimp only [acceptorStep] at h
  split at h
  · rename_i hthread
    split at h
    · rename_i hevents
      cases h
      refine proceeds_of_phase hthread ⟨rfl, rfl⟩ ⟨rfl, rfl⟩ (by rintro ⟨⟩) fun _ ↦ ?_
      simp only [acceptorRank]
      omega
    · cases h
  · cases h

private theorem proceeds_handleEvent (h : s.acceptorStep .handleEvent = some s') :
    s.Proceeds s' := by
  have hrank : ∀ {p q : AcceptorPhase} {counter : ℕ} (event : AcceptorEvent)
      (rest : List AcceptorEvent), p = .batch (event :: rest) → q = .batch rest
        ∨ q = .accepting rest →
      { s with thread := q, stopCounter := counter }.acceptorRank
        < { s with thread := p }.acceptorRank := by
    rintro p q counter event rest rfl (rfl | rfl) <;>
      (simp only [acceptorRank, List.length_cons]; omega)
  dsimp only [acceptorStep] at h
  split at h <;> cases h
  · exact proceeds_of_phase ‹_› ⟨rfl, rfl⟩ ⟨rfl, rfl⟩ (by rintro ⟨⟩) fun _ ↦
      hrank _ _ rfl (Or.inl rfl)
  · exact proceeds_of_phase ‹_› ⟨rfl, rfl⟩ ⟨rfl, rfl⟩ (by rintro ⟨⟩) fun _ ↦
      hrank _ _ rfl (Or.inl rfl)
  · exact proceeds_of_phase ‹_› ⟨rfl, rfl⟩ ⟨rfl, rfl⟩ (by rintro ⟨⟩) fun _ ↦
      hrank _ _ rfl (Or.inr rfl)

private theorem proceeds_acceptCheck (h : s.acceptorStep .acceptCheck = some s') :
    s.Proceeds s' := by
  dsimp only [acceptorStep] at h
  split at h <;> cases h
  rename_i rest hthread
  by_cases hstop : s.stopRequested = true
  · rw [if_pos hstop]
    refine proceeds_of_phase hthread ⟨rfl, rfl⟩ ⟨rfl, rfl⟩ (by rintro ⟨⟩) fun _ ↦ ?_
    simp only [acceptorRank]
    omega
  · rw [if_neg hstop]
    exact proceeds_of_phase hthread ⟨rfl, rfl⟩ ⟨rfl, rfl⟩ (by rintro ⟨⟩) fun hstop' ↦
      absurd hstop' hstop

private theorem proceeds_leave (h : s.acceptorStep .leave = some s') : s.Proceeds s' := by
  dsimp only [acceptorStep] at h
  split at h <;> cases h
  rename_i hthread
  refine ⟨rfl, by rw [hthread]; rfl, by rintro ⟨⟩, id, Server.spares_of_workers rfl,
    fun hsynced ↦ iff_of_true (hsynced.mpr (by rw [hthread]; rfl)) rfl, by rintro ⟨⟩, ?_,
    fun _ ↦ ?_⟩
  · exact (Bool.and_false _).symm
  · simp only [acceptorRank, hthread]
    omega

/-- **The acceptor keeps to its bounds, and comes closer to its end once it is to stop.** -/
theorem proceeds_step {step : AcceptorStep} (h : s.acceptorStep step = some s') :
    s.Proceeds s' := by
  cases step with
  | check => exact proceeds_check h
  | interrupt | fail | retry | done | endBatch =>
    dsimp only [acceptorStep] at h
    split at h <;> cases h
    refine proceeds_of_phase ‹_› ⟨rfl, rfl⟩ ⟨rfl, rfl⟩ (by rintro ⟨⟩) fun _ ↦ ?_
    simp only [acceptorRank, List.length_nil]
    omega
  | epollWait events => exact proceeds_epollWait h
  | handleEvent => exact proceeds_handleEvent h
  | acceptCheck => exact proceeds_acceptCheck h
  | leave => exact proceeds_leave h
  | accept fd =>
    dsimp only [acceptorStep] at h
    split at h
    · exact proceeds_accept ‹_› h
    · cases h
  | push =>
    dsimp only [acceptorStep] at h
    split at h
    · exact proceeds_push ‹_› h
    · cases h
  | pushThrows =>
    dsimp only [acceptorStep] at h
    split at h
    · obtain ⟨hstep, hs'⟩ := handoff_eq_some h
      obtain ⟨hspares, -, hidle⟩ := Server.spares_pushThrows hstep
      exact proceeds_handed ‹_› hstep hs' hspares hidle
    · cases h
  | wake =>
    dsimp only [acceptorStep] at h
    split at h
    · obtain ⟨hstep, hs'⟩ := handoff_eq_some h
      obtain ⟨hspares, -, hidle⟩ := Server.spares_wake hstep
      exact proceeds_handed ‹_› hstep hs' hspares hidle
    · cases h

/-! ## What can be done

In every phase but those in which the acceptor waits it has a step. Where it waits for events, it
has one if it has been woken. -/

/-- The acceptor is not blocked, if it does not wait or can be woken. -/
theorem exists_acceptor_step (hlive : s.thread.live = true) (hsynced : s.Synced)
    (hwaiting : s.thread = .waiting → 0 < s.stopCounter) :
    ∃ step s', step.byKernel = false ∧ s.acceptorStep step = some s' := by
  cases hthread : s.thread with
  | unstarted =>
    rw [hthread] at hlive
    cases hlive
  | exited =>
    rw [hthread] at hlive
    cases hlive
  | checking => exact ⟨.check, _, rfl, by simp only [acceptorStep, hthread]; rfl⟩
  | waiting =>
    refine ⟨.epollWait [.stop], { s with thread := .batch [.stop] }, rfl, ?_⟩
    have hcounter := hwaiting hthread
    simp only [acceptorStep, hthread]
    exact if_pos ⟨Nat.one_pos, by decide, by simpa [mayReport] using hcounter⟩
  | batch events =>
    cases events with
    | nil => exact ⟨.endBatch, _, rfl, by simp only [acceptorStep, hthread]; rfl⟩
    | cons event events =>
      cases event <;> exact ⟨.handleEvent, _, rfl, by simp only [acceptorStep, hthread]; rfl⟩
  | accepting rest => exact ⟨.acceptCheck, _, rfl, by simp only [acceptorStep, hthread]; rfl⟩
  | calling rest => exact ⟨.done, _, rfl, by simp only [acceptorStep, hthread]; rfl⟩
  | enqueueing rest =>
    cases hacceptor : s.server.acceptor with
    | idle =>
      have hnot := hsynced.mp hacceptor
      rw [hthread] at hnot
      cases hnot
    | holding socket w =>
      refine ⟨.push, ?_⟩
      simp only [acceptorStep, hthread, handoff, Server.step, hacceptor]
      -- the socket is refused or handed over
      split <;> exact ⟨_, rfl, rfl⟩
    | pushed w =>
      refine ⟨.wake, ?_⟩
      simp only [acceptorStep, hthread, handoff, Server.step, hacceptor]
      exact ⟨_, rfl, rfl⟩
  | leaving => exact ⟨.leave, _, rfl, by simp only [acceptorStep, hthread]; rfl⟩

end CacheServer

end HighCache
