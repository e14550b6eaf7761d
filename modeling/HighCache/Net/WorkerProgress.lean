import HighCache.Net.CacheServer
import HighCache.Net.WorkerSafety

/-!
# A worker on its way to the end

A worker that was asked to stop leaves its loop at the next head of it, and what it has to do until
then is bounded: a batch of events or some sockets to install. Each step of its own brings it closer
to its end (`Worker.advances_step`), and it can take one unless it waits for the eventfd
(`Worker.exists_own_step`).
-/

namespace HighCache

namespace Worker

/-! ## What is left to do -/

/-- The steps a worker has left at most, once it is asked to stop. -/
def rank (x : Worker) : ℕ :=
  match x.phase with
  | .finished => 0
  | .clearingPending => 1
  | .clearing => 2
  | .checking => 3
  | .installing _ rest => 4 + rest.length
  | .batch events _ _ => 4 + events.length
  | .waiting => 5 + maxEvents
  | .swapping => 5 + x.pending.length

/-- What a step of its own does to a worker: nothing to what it was asked, and if it was asked to
stop, it brings its end closer. -/
structure Advances (x x' : Worker) : Prop where
  stopRequested : x'.stopRequested = x.stopRequested
  stopWakes : x'.stopWakes = x.stopWakes
  unfinished : x.phase ≠ .finished
  rank : x.stopRequested = true → x'.rank < x.rank

theorem advances_of_phase {x x' : Worker} {phase : WorkerPhase} (hphase : x.phase = phase)
    (hstop : x'.stopRequested = x.stopRequested) (hwakes : x'.stopWakes = x.stopWakes)
    (hne : phase ≠ .finished)
    (hrank : x.stopRequested = true → x'.rank < { x with phase := phase }.rank) :
    x.Advances x' := by
  subst hphase
  exact ⟨hstop, hwakes, hne, hrank⟩

/-- **Every step of its own brings a worker that is to stop closer to its end.** -/
theorem advances_step {x x' : Worker} {closed : List AcceptedSocket} {step : WorkerStep}
    (hown : step.isOwn = true) (h : x.step step = some (closed, x')) : x.Advances x' := by
  cases takes_step h with
  | requestStop => cases hown
  | stopWake => cases hown
  | wait hphase hstop =>
    exact advances_of_phase hphase rfl rfl (by rintro ⟨⟩) fun hstop' ↦
      absurd (hstop.symm.trans hstop') (by rintro ⟨⟩)
  | leave hphase _ | interrupt hphase | fail hphase | swapPending hphase | endInstall hphase
  | clearConnections hphase | clearPending hphase =>
    refine advances_of_phase hphase rfl rfl (by rintro ⟨⟩) fun _ ↦ ?_
    simp only [rank]
    omega
  | epollWait hphase hlength _ =>
    refine advances_of_phase hphase rfl rfl (by rintro ⟨⟩) fun _ ↦ ?_
    simp only [rank]
    omega
  | drain hphase | keep hphase | close hphase _ | install hphase | installCloses hphase
  | installKeeps hphase =>
    refine advances_of_phase hphase rfl rfl (by rintro ⟨⟩) fun _ ↦ ?_
    simp only [rank, List.length_cons]
    omega
  | toSwap hphase hstop =>
    exact advances_of_phase hphase rfl rfl (by rintro ⟨⟩) fun hstop' ↦
      absurd (hstop.symm.trans hstop') (by rintro ⟨⟩)
  | endBatch hphase _ =>
    refine advances_of_phase hphase rfl rfl (by rintro ⟨⟩) fun _ ↦ ?_
    simp only [rank]
    omega

/-! ## What can be done -/

/-- A worker that can be woken is not blocked. -/
theorem exists_own_step {x : Worker} (hfinished : x.phase ≠ .finished)
    (hwaiting : x.phase = .waiting → 0 < x.counter) :
    ∃ step r, step.isOwn = true ∧ step.byKernel = false ∧ x.step step = some r := by
  cases hphase : x.phase with
  | checking => exact ⟨.check, _, rfl, rfl, by simp only [Worker.step, hphase]; rfl⟩
  | waiting =>
    have hcounter := hwaiting hphase
    refine ⟨.epollWait [.wakeup], ([], { x with phase := .batch [.wakeup] false x.connections }),
      rfl, rfl, ?_⟩
    simp only [Worker.step, hphase]
    exact if_pos ⟨Nat.one_pos, by decide, by simpa [mayReport] using hcounter⟩
  | batch events seen present =>
    cases events with
    | nil => exact ⟨.endBatch, _, rfl, rfl, by simp only [Worker.step, hphase]; rfl⟩
    | cons event events =>
      exact ⟨.handleEvent true, _, rfl, rfl, by simp only [Worker.step, hphase]; rfl⟩
  | swapping => exact ⟨.swapPending, _, rfl, rfl, by simp only [Worker.step, hphase]; rfl⟩
  | installing kept rest =>
    cases rest with
    | nil => exact ⟨.endInstall, _, rfl, rfl, by simp only [Worker.step, hphase]; rfl⟩
    | cons socket rest =>
      exact ⟨.install .closed, _, rfl, rfl, by simp only [Worker.step, hphase]; rfl⟩
  | clearing => exact ⟨.clearConnections, _, rfl, rfl, by simp only [Worker.step, hphase]; rfl⟩
  | clearingPending => exact ⟨.clearPending, _, rfl, rfl, by simp only [Worker.step, hphase]; rfl⟩
  | finished => exact absurd hphase hfinished

end Worker

end HighCache
