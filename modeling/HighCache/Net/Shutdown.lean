import HighCache.Net.OwnerSteps
import HighCache.Net.WorkerProgress

/-!
# Stopping the server

A server can be stopped at any time, while it is starting, accepting or serving, and by any thread.
When `join` has returned no thread is left and every socket that was ever accepted has been closed,
once; only a worker whose `epoll_wait` has failed may have been given sockets after its end
(`run_joined`). That `join` returns is proved in `HighCache.Net.Liveness`.

## The phases of the owner

Where the owner is says how far the others are: which workers have been asked to stop, which of them
have ended, and whether the acceptor has (`CacheServer.Fits`). Each step of another thread keeps
that for any phase, and each step of the owner brings it from its phase to the next.
-/

namespace HighCache

/-! ## The invariant

The functions below read off a phase how far the owner has come. The invariant compares each worker
with them, and so does not have a case for every phase. -/

namespace OwnerPhase

/-- The wake-ups of a worker that are still to come. -/
def due : OwnerPhase → ℕ → ℕ
  | .waking _ w, v => if v = w then 1 else 0
  | _, _ => 0

/-- The owner is in `start`, and the acceptor has no thread yet. -/
def beginning : OwnerPhase → Bool
  | .starting => true
  | .launching => true
  | .failing => true
  | _ => false

/-- The workers that have been asked to stop are those below, of `n` of which `started` run. -/
def asked (n started : ℕ) : OwnerPhase → ℕ
  | .stopping _ w => w
  | .waking _ w => w + 1
  | .joining unwinding _ => if unwinding then started else n
  | .clearing => n
  | .joined => n
  | _ => 0

/-- The workers that have been joined are those below. -/
def ended (n : ℕ) : OwnerPhase → ℕ
  | .joining _ w => w
  | .clearing => n
  | .joined => n
  | _ => 0

/-- The owner is past the acceptor. -/
def resting : OwnerPhase → Bool
  | .stopping _ _ => true
  | .waking _ _ => true
  | .joining _ _ => true
  | .clearing => true
  | .joined => true
  | _ => false

end OwnerPhase

namespace CacheServer

variable {n : ℕ} {s s' : CacheServer n} {p q : OwnerPhase}

/-- What holds of the rest of the server when the owner is in a phase. -/
structure Fits (s : CacheServer n) (p : OwnerPhase) : Prop where
  due : ∀ v, (s.server.workers v).stopWakes = p.due v
  beginning : p.beginning = true → s.thread = .unstarted ∧ s.everStarted = true
  launching : p = .launching → s.started = n ∧ s.running = true
  resting : p.resting = true → s.thread.live = false
  asked : ∀ v : Fin n, v < p.asked n s.started → (s.server.workers v).stopRequested = true
  ended : ∀ v : Fin n, v < p.ended n → s.idle v = true
  waking : ∀ u w, p = .waking u w → w < n ∧ w < s.count u
  running : s.running = true → s.thread.live = true ∨ p = .launching ∨ p = .failing

/-- The invariant of the threads. -/
structure Inv (s : CacheServer n) : Prop where
  server : s.server.Inv
  synced : s.Synced
  untouched : s.thread = .unstarted → s.server.accepted = []
  started_le : s.started ≤ n
  crewed : s.thread ≠ .unstarted → s.started = n
  fresh : s.everStarted = false → s.thread = .unstarted
  /-- An acceptor that waits and is to stop is woken, or about to be. -/
  noticed : s.stopRequested = true → s.thread = .waiting → 0 < s.stopCounter ∨ 0 < s.stopWakes
  live : s.thread.live = true → s.running = true
  fits : s.Fits s.owner

theorem idle_iff {w : Fin n} :
    s.idle w = true ↔ s.started ≤ w ∨ (s.server.workers w).phase = .finished :=
  decide_eq_true_iff

theorem inv_new (h : 0 < n) : (new h).Inv where
  server := Server.inv_new h
  synced := iff_of_true rfl rfl
  untouched := fun _ ↦ rfl
  started_le := Nat.zero_le n
  crewed := fun hne ↦ absurd rfl hne
  fresh := fun _ ↦ rfl
  noticed := by rintro ⟨⟩
  live := by rintro ⟨⟩
  fits :=
    { due := fun _ ↦ rfl
      beginning := by rintro ⟨⟩
      launching := by rintro ⟨⟩
      resting := by rintro ⟨⟩
      asked := fun v hv ↦ absurd hv (Nat.not_lt_zero v)
      ended := fun v hv ↦ absurd hv (Nat.not_lt_zero v)
      waking := by rintro _ _ ⟨⟩
      running := by rintro ⟨⟩ }

/-! ### Steps of the others

A worker that was asked to stop stays asked, and one that has ended stays where it is. So a step of
another thread keeps what is known in any phase. -/

theorem Proceeds.fits (hp : s.Proceeds s') (h : s.Fits p) : s'.Fits p where
  due := fun v ↦ by rw [hp.spares.stopWakes, h.due]
  beginning := fun hbeginning ↦ by
    have hlive := hp.live
    rw [(h.beginning hbeginning).1] at hlive
    cases hlive
  launching := fun hlaunching ↦ by
    have hlive := hp.live
    rw [(h.beginning (by rw [hlaunching]; rfl)).1] at hlive
    cases hlive
  resting := fun hresting ↦ by
    have hlive := hp.live
    rw [h.resting hresting] at hlive
    cases hlive
  asked := fun v hv ↦ by
    rw [hp.spares.stopRequested]
    refine h.asked v ?_
    rwa [hp.frame] at hv
  ended := fun v hv ↦ by
    have hidle := idle_iff.mp (h.ended v hv)
    rw [idle_iff, hp.spares.phase, hp.frame]
    exact hidle
  waking := fun u w heq ↦ by
    rw [hp.frame]
    exact h.waking u w heq
  running := fun hrunning ↦ by
    rw [hp.running, Bool.and_eq_true] at hrunning
    exact Or.inl hrunning.2

theorem Inv.proceeds (h : s.Inv) (hp : s.Proceeds s') : s'.Inv where
  server := hp.inv h.server
  synced := hp.synced h.synced
  untouched := fun heq ↦ absurd heq hp.unhalted
  started_le := by
    rw [hp.frame]
    exact h.started_le
  crewed := fun _ ↦ by
    rw [hp.frame]
    refine h.crewed fun heq ↦ ?_
    have hlive := hp.live
    rw [heq] at hlive
    cases hlive
  fresh := fun hfresh ↦ by
    rw [hp.frame] at hfresh
    have hlive := hp.live
    rw [h.fresh hfresh] at hlive
    cases hlive
  noticed := fun hstop hwaiting ↦ by
    rw [hp.frame, show CacheServer.stopRequested _ = s.stopRequested from rfl,
      hp.waiting hwaiting] at hstop
    cases hstop
  live := fun hlive ↦ by
    rw [hp.running, hlive, h.live hp.live]
    rfl
  fits := by
    have howner : s'.owner = s.owner := by rw [hp.frame]
    rw [howner]
    exact hp.fits h.fits

private theorem workers_step {w : Fin n} {x : Worker} {closed : List AcceptedSocket} {α : Type}
    (f : Worker → α) (hf : f x = f (s.server.workers w)) (v : Fin n) :
    f (((s.server.setWorker w x).close closed).workers v) = f (s.server.workers v) := by
  show f (Function.update s.server.workers w x v) = _
  by_cases hv : v = w
  · subst hv
    rw [Function.update_self, hf]
  · rw [Function.update_of_ne hv]

theorem Fits.worker (h : s.Fits p) {w : Fin n} {x : Worker} {closed : List AcceptedSocket}
    (hx : (s.server.workers w).Advances x) :
    Fits { s with server := (s.server.setWorker w x).close closed } p where
  due := fun v ↦ (workers_step Worker.stopWakes hx.stopWakes v).trans (h.due v)
  beginning := h.beginning
  launching := h.launching
  resting := h.resting
  asked := fun v hv ↦ (workers_step Worker.stopRequested hx.stopRequested v).trans (h.asked v hv)
  ended := fun v hv ↦ by
    refine idle_iff.mpr ((idle_iff.mp (h.ended v hv)).imp id fun hfinished ↦ ?_)
    show (Function.update s.server.workers w x v).phase = _
    have hv' : v ≠ w := by
      rintro rfl
      exact hx.unfinished hfinished
    rw [Function.update_of_ne hv', hfinished]
  waking := h.waking
  running := h.running

theorem Inv.worker (h : s.Inv) {w : Fin n} {step : WorkerStep} (hown : step.isOwn = true)
    {closed : List AcceptedSocket} {x : Worker}
    (hstep : (s.server.workers w).step step = some (closed, x)) :
    Inv { s with server := (s.server.setWorker w x).close closed } where
  server := h.server.worker hstep
  synced := h.synced
  untouched := h.untouched
  started_le := h.started_le
  crewed := h.crewed
  fresh := h.fresh
  noticed := h.noticed
  live := h.live
  fits := h.fits.worker (Worker.advances_step hown hstep)

theorem handoff_worker {w : Fin n} {step : WorkerStep}
    (h : s.handoff (.worker w step) = some s') :
    ∃ closed x, (s.server.workers w).step step = some (closed, x)
      ∧ s' = { s with server := (s.server.setWorker w x).close closed } := by
  obtain ⟨hstep, hs'⟩ := handoff_eq_some h
  dsimp only [Server.step] at hstep
  split at hstep
  · rename_i closed x hx
    rw [← Option.some.inj hstep] at hs'
    exact ⟨closed, x, hx, hs'⟩
  · cases hstep

/-! ### Steps of the owner

One lemma for each of its steps: what is known in the phase it goes to follows from what was known
and from what it has found. -/

theorem Fits.toPhase (h : s.Fits p) (hdue : ∀ v, q.due v = p.due v)
    (hbeginning : q.beginning = true → p.beginning = true) (hlaunching : q ≠ .launching)
    (hresting : q.resting = true → s.thread.live = false)
    (hasked : ∀ v : Fin n, v < q.asked n s.started → v < p.asked n s.started)
    (hended : ∀ v : Fin n, v < q.ended n → s.idle v = true) (hwaking : ∀ u w, q ≠ .waking u w)
    (hrunning : s.running = true → s.thread.live = true ∨ q = .failing) : s.Fits q where
  due := fun v ↦ (h.due v).trans (hdue v).symm
  beginning := fun hq ↦ h.beginning (hbeginning hq)
  launching := fun heq ↦ absurd heq hlaunching
  resting := hresting
  asked := fun v hv ↦ h.asked v (hasked v hv)
  ended := hended
  waking := fun u w heq ↦ absurd heq (hwaking u w)
  running := fun hrunning' ↦ (hrunning hrunning').imp id Or.inr

theorem Fits.live_of_running (h : s.Fits p) (hbeginning : p.beginning = false)
    (hrunning : s.running = true) : s.thread.live = true := by
  rcases h.running hrunning with hlive | rfl | rfl
  · exact hlive
  · cases hbeginning
  · cases hbeginning

theorem Inv.toOwner (h : s.Inv) (hfits : s.Fits p) : Inv { s with owner := p } :=
  { h with fits := { hfits with } }

/-- `request_stop` of a worker, before the wake-up. -/
theorem Inv.stopWorker (h : s.Inv) {u : Bool} {w : Fin n} (howner : s.owner = .stopping u w)
    (hw : w < s.count u) :
    Inv { s with
      server := s.server.setWorker w { s.server.workers w with
        stopRequested := true
        stopWakes := (s.server.workers w).stopWakes + 1 }
      owner := .waking u w } := by
  have hfits := h.fits
  rw [howner] at hfits
  have hstep : (s.server.workers w).step .requestStop = some ([], { s.server.workers w with
      stopRequested := true
      stopWakes := (s.server.workers w).stopWakes + 1 }) := rfl
  refine { h with server := h.server.worker hstep, fits := ?_ }
  refine ⟨fun v ↦ ?_, by rintro ⟨⟩, by rintro ⟨⟩, fun _ ↦ hfits.resting rfl, fun v hv ↦ ?_,
    fun v hv ↦ absurd hv (Nat.not_lt_zero v), ?_, fun hrunning ↦
      Or.inl (hfits.live_of_running rfl hrunning)⟩
  · show (Function.update s.server.workers w _ v).stopWakes = if (v : ℕ) = w then 1 else 0
    by_cases hv : v = w
    · subst hv
      rw [Function.update_self, if_pos rfl]
      show (s.server.workers v).stopWakes + 1 = 1
      rw [hfits.due v]
      rfl
    · rw [Function.update_of_ne hv, if_neg (mt Fin.ext hv), hfits.due v]
      rfl
  · show (Function.update s.server.workers w _ v).stopRequested = true
    by_cases hvw : v = w
    · subst hvw
      rw [Function.update_self]
    · rw [Function.update_of_ne hvw]
      have hlt : (v : ℕ) < w + 1 := hv
      have hne : (v : ℕ) ≠ w := mt Fin.ext hvw
      exact hfits.asked v (show (v : ℕ) < w by omega)
  · rintro u' w' ⟨⟩
    exact ⟨w.isLt, hw⟩

/-- The wake-up after it. -/
theorem Inv.wakeWorker (h : s.Inv) {u : Bool} {w : Fin n} (howner : s.owner = .waking u w) :
    Inv { s with
      server := s.server.setWorker w { s.server.workers w with
        stopWakes := (s.server.workers w).stopWakes - 1
        counter := wakeEvent (s.server.workers w).counter }
      owner := .stopping u (w + 1) } := by
  have hfits := h.fits
  rw [howner] at hfits
  have hdue : (s.server.workers w).stopWakes = 1 := (hfits.due w).trans (if_pos rfl)
  have hstep : (s.server.workers w).step .stopWake = some ([], { s.server.workers w with
      stopWakes := (s.server.workers w).stopWakes - 1
      counter := wakeEvent (s.server.workers w).counter }) := if_pos (hdue ▸ Nat.one_pos)
  refine { h with server := h.server.worker hstep, fits := ?_ }
  refine ⟨fun v ↦ ?_, by rintro ⟨⟩, by rintro ⟨⟩, fun _ ↦ hfits.resting rfl, fun v hv ↦ ?_,
    fun v hv ↦ absurd hv (Nat.not_lt_zero v), by rintro _ _ ⟨⟩, fun hrunning ↦
      Or.inl (hfits.live_of_running rfl hrunning)⟩
  · show (Function.update s.server.workers w _ v).stopWakes = 0
    by_cases hv : v = w
    · subst hv
      rw [Function.update_self]
      show (s.server.workers v).stopWakes - 1 = 0
      rw [hdue]
    · rw [Function.update_of_ne hv, hfits.due v]
      exact if_neg (mt Fin.ext hv)
  · show (Function.update s.server.workers w _ v).stopRequested = true
    by_cases hvw : v = w
    · subst hvw
      rw [Function.update_self]
      exact hfits.asked v hv
    · rw [Function.update_of_ne hvw]
      exact hfits.asked v hv

theorem Inv.start (h : s.Inv) (howner : s.owner = .idle ∨ s.owner = .joined)
    (hstarted : s.everStarted = false) :
    Inv { s with everStarted := true, owner := .starting } := by
  have hfits := h.fits
  have hthread := h.fresh hstarted
  have hdue : ∀ v, s.owner.due v = 0 := by
    rcases howner with howner | howner <;> (rw [howner]; exact fun _ ↦ rfl)
  refine { h with fresh := by rintro ⟨⟩, fits := ?_ }
  refine ⟨fun v ↦ (hfits.due v).trans (hdue v), fun _ ↦ ⟨hthread, rfl⟩, by rintro ⟨⟩,
    by rintro ⟨⟩, fun v hv ↦ absurd hv (Nat.not_lt_zero v),
    fun v hv ↦ absurd hv (Nat.not_lt_zero v), by rintro _ _ ⟨⟩, fun hrunning ↦ Or.inl ?_⟩
  rcases howner with howner | howner <;> (rw [howner] at hfits)
  · exact hfits.live_of_running rfl hrunning
  · exact hfits.live_of_running rfl hrunning

theorem Inv.startWorker (h : s.Inv) (howner : s.owner = .starting) (hstarted : s.started < n) :
    Inv { s with started := s.started + 1 } := by
  have hfits := h.fits
  rw [howner] at hfits
  have hthread := (hfits.beginning rfl).1
  refine { h with
    started_le := hstarted
    crewed := fun hne ↦ absurd hthread hne
    fits := ?_ }
  show Fits _ s.owner
  rw [howner]
  exact ⟨hfits.due, hfits.beginning, by rintro ⟨⟩, by rintro ⟨⟩,
    fun v hv ↦ absurd hv (Nat.not_lt_zero v), fun v hv ↦ absurd hv (Nat.not_lt_zero v),
    by rintro _ _ ⟨⟩, hfits.running⟩

private theorem Inv.fails (h : s.Inv) (howner : s.owner = .starting ∨ s.owner = .launching) :
    Inv { s with owner := .failing } := by
  have hfits := h.fits
  refine h.toOwner ?_
  rcases howner with howner | howner <;> rw [howner] at hfits <;>
    exact hfits.toPhase (fun _ ↦ rfl) (fun _ ↦ rfl) (by rintro ⟨⟩) (by rintro ⟨⟩)
      (fun _ ↦ id) (fun v hv ↦ absurd hv (Nat.not_lt_zero v)) (by rintro _ _ ⟨⟩) fun _ ↦ Or.inr rfl

theorem Inv.publish (h : s.Inv) (howner : s.owner = .starting) (hstarted : s.started = n) :
    Inv { s with running := true, owner := .launching } := by
  have hfits := h.fits
  rw [howner] at hfits
  exact { h with
    live := fun _ ↦ rfl
    fits := ⟨hfits.due, hfits.beginning, fun _ ↦ ⟨hstarted, rfl⟩, by rintro ⟨⟩,
      fun v hv ↦ absurd hv (Nat.not_lt_zero v), fun v hv ↦ absurd hv (Nat.not_lt_zero v),
      by rintro _ _ ⟨⟩, fun _ ↦ Or.inr (Or.inl rfl)⟩ }

theorem Inv.launch (h : s.Inv) (howner : s.owner = .launching) :
    Inv { s with thread := .checking, owner := .idle } := by
  have hfits := h.fits
  rw [howner] at hfits
  obtain ⟨hthread, hstarted⟩ := hfits.beginning rfl
  obtain ⟨hcrew, hrunning⟩ := hfits.launching rfl
  exact
    { server := h.server
      synced := iff_of_true (h.synced.mpr (by rw [hthread]; rfl)) rfl
      untouched := by rintro ⟨⟩
      started_le := h.started_le
      crewed := fun _ ↦ hcrew
      fresh := fun hfresh ↦ absurd (hfresh.symm.trans hstarted) (by rintro ⟨⟩)
      noticed := fun _ ↦ by rintro ⟨⟩
      live := fun _ ↦ hrunning
      fits := ⟨hfits.due, by rintro ⟨⟩, by rintro ⟨⟩, by rintro ⟨⟩,
        fun v hv ↦ absurd hv (Nat.not_lt_zero v), fun v hv ↦ absurd hv (Nat.not_lt_zero v),
        by rintro _ _ ⟨⟩, fun _ ↦ Or.inl rfl⟩ }

theorem Inv.unwind (h : s.Inv) (howner : s.owner = .failing) :
    Inv { s with running := false, owner := .stopping true 0 } := by
  have hfits := h.fits
  rw [howner] at hfits
  have hlive : s.thread.live = false := by
    rw [(hfits.beginning rfl).1]
    rfl
  exact { h with
    live := fun hlive' ↦ absurd (hlive.symm.trans hlive') (by rintro ⟨⟩)
    fits := ⟨hfits.due, by rintro ⟨⟩, by rintro ⟨⟩, fun _ ↦ hlive,
      fun v hv ↦ absurd hv (Nat.not_lt_zero v), fun v hv ↦ absurd hv (Nat.not_lt_zero v),
      by rintro _ _ ⟨⟩, by rintro ⟨⟩⟩ }

theorem Inv.join (h : s.Inv) (howner : s.owner = .idle ∨ s.owner = .joined) :
    Inv { s with owner := .joiningAcceptor } := by
  have hfits := h.fits
  refine h.toOwner ?_
  rcases howner with howner | howner <;> rw [howner] at hfits <;>
    exact hfits.toPhase (fun _ ↦ rfl) (by rintro ⟨⟩) (by rintro ⟨⟩) (by rintro ⟨⟩)
      (fun v hv ↦ absurd hv (Nat.not_lt_zero v)) (fun v hv ↦ absurd hv (Nat.not_lt_zero v))
      (by rintro _ _ ⟨⟩) fun hrunning ↦ Or.inl (hfits.live_of_running rfl hrunning)

theorem Inv.joinAcceptor (h : s.Inv) (howner : s.owner = .joiningAcceptor)
    (hlive : s.thread.live = false) : Inv { s with owner := .stopping false 0 } := by
  have hfits := h.fits
  rw [howner] at hfits
  exact h.toOwner (hfits.toPhase (fun _ ↦ rfl) (by rintro ⟨⟩) (by rintro ⟨⟩) (fun _ ↦ hlive)
    (fun v hv ↦ absurd hv (Nat.not_lt_zero v)) (fun v hv ↦ absurd hv (Nat.not_lt_zero v))
    (by rintro _ _ ⟨⟩) fun hrunning ↦ Or.inl (hfits.live_of_running rfl hrunning))

theorem Inv.stopped (h : s.Inv) {u : Bool} {w : ℕ} (howner : s.owner = .stopping u w)
    (hw : n ≤ w ∨ s.count u ≤ w) : Inv { s with owner := .joining u 0 } := by
  have hfits := h.fits
  rw [howner] at hfits
  refine h.toOwner (hfits.toPhase (fun _ ↦ rfl) (by rintro ⟨⟩) (by rintro ⟨⟩)
    (fun _ ↦ hfits.resting rfl) (fun v hv ↦ ?_) (fun v hv ↦ absurd hv (Nat.not_lt_zero v))
    (by rintro _ _ ⟨⟩) fun hrunning ↦ Or.inl (hfits.live_of_running rfl hrunning))
  have hv' : (v : ℕ) < s.count u := hv
  show (v : ℕ) < w
  omega

theorem Inv.joinWorker (h : s.Inv) {u : Bool} {w : Fin n} (howner : s.owner = .joining u w)
    (hidle : s.idle w = true) : Inv { s with owner := .joining u (w + 1) } := by
  have hfits := h.fits
  rw [howner] at hfits
  refine h.toOwner (hfits.toPhase (fun _ ↦ rfl) (by rintro ⟨⟩) (by rintro ⟨⟩)
    (fun _ ↦ hfits.resting rfl) (fun v hv ↦ hv) (fun v hv ↦ ?_) (by rintro _ _ ⟨⟩)
    fun hrunning ↦ Or.inl (hfits.live_of_running rfl hrunning))
  by_cases hvw : v = w
  · exact hvw ▸ hidle
  · have hlt : (v : ℕ) < w + 1 := hv
    have hne : (v : ℕ) ≠ w := mt Fin.ext hvw
    exact hfits.ended v (show (v : ℕ) < w by omega)

theorem Inv.joinedWorkers (h : s.Inv) {u : Bool} {w : ℕ} (howner : s.owner = .joining u w)
    (hw : n ≤ w ∨ s.count u ≤ w) : Inv { s with owner := if u then .idle else .clearing } := by
  have hfits := h.fits
  rw [howner] at hfits
  refine h.toOwner ?_
  cases u with
  | true =>
    exact hfits.toPhase (fun _ ↦ rfl) (by rintro ⟨⟩) (by rintro ⟨⟩) (by rintro ⟨⟩)
      (fun v hv ↦ absurd hv (Nat.not_lt_zero v)) (fun v hv ↦ absurd hv (Nat.not_lt_zero v))
      (by rintro _ _ ⟨⟩) fun hrunning ↦ Or.inl (hfits.live_of_running rfl hrunning)
  | false =>
    have hw' : n ≤ w := hw.elim id id
    exact hfits.toPhase (fun _ ↦ rfl) (by rintro ⟨⟩) (by rintro ⟨⟩)
      (fun _ ↦ hfits.resting rfl) (fun v hv ↦ hv)
      (fun v _ ↦ hfits.ended v (Nat.lt_of_lt_of_le v.isLt hw')) (by rintro _ _ ⟨⟩)
      fun hrunning ↦ Or.inl (hfits.live_of_running rfl hrunning)

theorem Inv.clear (h : s.Inv) (howner : s.owner = .clearing) :
    Inv { s with running := false, owner := .joined } := by
  have hfits := h.fits
  rw [howner] at hfits
  exact { h with
    live := fun hlive ↦ absurd ((hfits.resting rfl).symm.trans hlive) (by rintro ⟨⟩)
    fits := ⟨hfits.due, by rintro ⟨⟩, by rintro ⟨⟩, fun _ ↦ hfits.resting rfl, hfits.asked,
      hfits.ended, by rintro _ _ ⟨⟩, by rintro ⟨⟩⟩ }

/-- **A step of the owner keeps the invariant.** -/
theorem Inv.owner (h : s.Inv) (htakes : s.OwnerTakes s') : s'.Inv := by
  cases htakes with
  | refused howner => exact h
  | unarmed howner =>
    exact { h with
      fresh := by rintro ⟨⟩
      fits := { h.fits with beginning := fun hb ↦ ⟨(h.fits.beginning hb).1, rfl⟩ } }
  | start howner hstarted => exact h.start howner hstarted
  | startWorker howner hstarted => exact h.startWorker howner hstarted
  | startWorkerFails howner => exact h.fails (Or.inl howner)
  | publish howner hstarted => exact h.publish howner hstarted
  | launch howner => exact h.launch howner
  | launchFails howner => exact h.fails (Or.inr howner)
  | unwind howner => exact h.unwind howner
  | join howner => exact h.join howner
  | joinAcceptor howner hlive => exact h.joinAcceptor howner hlive
  | stopWorker howner hw => exact h.stopWorker howner hw
  | stopped howner hw => exact h.stopped howner hw
  | wakeWorker howner => exact h.wakeWorker howner
  | joinWorker howner hw hidle => exact h.joinWorker howner hidle
  | joinedWorkers howner hw => exact h.joinedWorkers howner hw
  | clear howner => exact h.clear howner

/-! ## Every run -/

/-- **A step of any thread keeps the invariant.** -/
theorem Inv.step (h : s.Inv) {step : CacheServerStep n} (hstep : s.step step = some s') :
    s'.Inv := by
  cases step with
  | requestStop =>
    cases hstep
    exact { h with
      noticed := fun _ _ ↦ Or.inr (Nat.succ_pos _)
      fits := { h.fits with } }
  | stopWake =>
    dsimp only [CacheServer.step] at hstep
    split at hstep
    · cases hstep
      exact { h with
        noticed := fun _ _ ↦ Or.inl (wakeEvent_pos _)
        fits := { h.fits with } }
    · cases hstep
  | owner step => exact h.owner (ownerTakes_step hstep)
  | acceptor step => exact h.proceeds (proceeds_step hstep)
  | worker w step =>
    dsimp only [CacheServer.step] at hstep
    split at hstep
    · rename_i hown
      obtain ⟨closed, x, hx, rfl⟩ := handoff_worker hstep
      exact h.worker hown.2 hx
    · cases hstep

theorem Inv.run : ∀ (steps : List (CacheServerStep n)) {s s' : CacheServer n}, s.Inv →
    s.run steps = some s' → s'.Inv := by
  intro steps
  induction steps with
  | nil =>
    intro s s' h hrun
    cases hrun
    exact h
  | cons step steps ih =>
    intro s s' h hrun
    rw [CacheServer.run, List.foldlM_cons] at hrun
    obtain ⟨s₁, hstep, hrest⟩ := Option.bind_eq_some_iff.mp hrun
    exact ih (h.step hstep) hrest

/-! ### When `join` has returned -/

/-- **What is promised when `join` has returned.** -/
structure Ended (s : CacheServer n) : Prop where
  /-- No thread is left, … -/
  acceptor : s.halted = true
  workers : ∀ w, s.idle w = true
  /-- … and nobody is told otherwise. -/
  running : s.running = false
  /-- Every accepted socket has been closed, and once. Only a worker whose `epoll_wait` failed may
  still have sockets, which the acceptor gave it after its end. -/
  closed : ∀ socket ∈ s.server.accepted, s.server.closed.count socket = 1
    ∨ ∃ w, (s.server.workers w).failed = true ∧ socket ∈ (s.server.workers w).pending

/-- A worker that has no thread has no sockets, unless its `epoll_wait` failed. -/
theorem Inv.of_idle (h : s.Inv) {w : Fin n} (hidle : s.idle w = true) {spot : Spot}
    {socket : AcceptedSocket} (hsocket : socket ∈ (s.server.workers w).sockets spot)
    (haccepted : socket ∈ s.server.accepted) :
    (s.server.workers w).failed = true ∧ socket ∈ (s.server.workers w).pending := by
  have hfinished : (s.server.workers w).phase = .finished := by
    refine (idle_iff.mp hidle).resolve_left fun hstarted ↦ ?_
    have hthread : s.thread = .unstarted := by
      by_contra hne
      have hcrew := h.crewed hne
      omega
    rw [h.untouched hthread] at haccepted
    cases haccepted
  have hsound := h.server.workers w
  cases spot with
  | pending =>
    refine ⟨?_, hsocket⟩
    by_contra hfailed
    have hcleared : (s.server.workers w).pending = [] :=
      hsound.cleared (Bool.not_eq_true _ ▸ hfailed) hfinished
    have hmem : socket ∈ (s.server.workers w).pending := hsocket
    rw [hcleared] at hmem
    cases hmem
  | installing =>
    have hmem : socket ∈ (s.server.workers w).phase.localVector := hsocket
    rw [hfinished] at hmem
    cases hmem
  | connections =>
    have hgone : (s.server.workers w).connections = [] :=
      hsound.disconnected (by rw [hfinished]; exact trivial)
    have hmem : socket ∈ (s.server.workers w).connections := hsocket
    rw [hgone] at hmem
    cases hmem

/-- **When `join` has returned, everything has ended**, whatever the threads have done before. -/
theorem run_joined (hn : 0 < n) (steps : List (CacheServerStep n)) {s : CacheServer n}
    (hrun : (new hn).run steps = some s) (howner : s.owner = .joined) : s.Ended := by
  have h := Inv.run steps (inv_new hn) hrun
  have hfits := h.fits
  rw [howner] at hfits
  have hlive : s.thread.live = false := hfits.resting rfl
  have hidle : ∀ w, s.idle w = true := fun w ↦ hfits.ended w w.isLt
  refine ⟨by rw [halted_eq_not_live, hlive]; rfl, hidle, ?_, fun socket hsocket ↦ ?_⟩
  · by_contra hrunning
    have hlive' := hfits.live_of_running rfl (Bool.not_eq_false _ ▸ hrunning)
    rw [hlive] at hlive'
    cases hlive'
  · obtain ⟨place, hplaced, hall⟩ := h.server.placed
    obtain ⟨p, hp⟩ := Option.ne_none_iff_exists'.mp ((hall socket).mp hsocket)
    have hmem : socket ∈ s.server.sockets p := hplaced.mem_iff.mpr hp
    cases p with
    | hand =>
      have hhand : s.server.acceptor = .idle := h.synced.mpr (by
        cases hthread : s.thread <;> rw [hthread] at hlive <;> first | rfl | cases hlive)
      have hempty : socket ∈ s.server.acceptor.hand := hmem
      rw [hhand] at hempty
      cases hempty
    | worker w spot => exact Or.inr ⟨w, h.of_idle (hidle w) hmem hsocket⟩
    | closed => exact Or.inl (hplaced.unique hp).1

/-- A server of one worker takes a socket and is asked to stop while the socket is installed. -/
private def stoppedWhileServing (w : Fin 1) : List (CacheServerStep 1) :=
  [.owner (.start true), .owner (.startWorker true), .owner .publish, .owner (.launch true),
    .acceptor .check, .acceptor (.epollWait [.listen]), .acceptor .handleEvent,
    .acceptor .acceptCheck, .acceptor (.accept 7), .acceptor .push, .acceptor .wake,
    .worker w .check, .worker w (.epollWait [.wakeup]), .worker w (.handleEvent true),
    .worker w .endBatch, .worker w .swapPending, .requestStop, .owner .join,
    .acceptor .acceptCheck, .acceptor .endBatch, .acceptor .check, .acceptor .leave, .stopWake,
    .owner .joinAcceptor, .owner .stopWorker, .owner .wakeWorker, .owner .stopWorker,
    .worker w (.install .done), .worker w .endInstall, .worker w .check,
    .worker w .clearConnections, .worker w .clearPending, .owner .joinWorker, .owner .joinWorker,
    .owner .clear]

theorem run_joined_while_serving : ∃ s, (new Nat.one_pos).run (stoppedWhileServing 0) = some s
    ∧ s.server.accepted = [⟨0, 7⟩] ∧ s.Ended := by
  have heval : ((new Nat.one_pos).run (stoppedWhileServing 0)).map
      (fun s ↦ (s.server.accepted, s.owner)) = some ([⟨0, 7⟩], .joined) := by
    decide +kernel
  obtain ⟨s, hrun, hvalues⟩ := Option.map_eq_some_iff.mp heval
  rw [Prod.mk.injEq] at hvalues
  exact ⟨s, hrun, hvalues.1, run_joined Nat.one_pos _ hrun hvalues.2⟩

end CacheServer

end HighCache
