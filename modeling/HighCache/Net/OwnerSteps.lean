import HighCache.Net.AcceptorProgress

/-!
# The steps of the owner

The owner of a server calls `start` and `join`, and `start` cleans up after a failure. Each of its
steps is one of those below, told with what it finds (`CacheServer.OwnerTakes`): the calls go from
one loop over the workers to the next, and a loop ends at the first worker that was not started.

## Two loops in one

`request_stop` and `join` of all workers are the same loops whether they are called by `join` or by
`start` on its way out; only what comes after them differs, and how many workers there are to go
through. The flag `unwinding` says which of the two it is.
-/

namespace HighCache

namespace CacheServer

variable {n : ℕ} {s s' : CacheServer n}

/-! ## The cases -/

/-- What a step of the owner can do. -/
inductive OwnerTakes (s : CacheServer n) : CacheServer n → Prop where
  | refused (howner : s.owner = .idle ∨ s.owner = .joined) : s.OwnerTakes s
  | unarmed (howner : s.owner = .idle ∨ s.owner = .joined) :
      s.OwnerTakes { s with everStarted := true }
  | start (howner : s.owner = .idle ∨ s.owner = .joined) (hstarted : s.everStarted = false) :
      s.OwnerTakes { s with everStarted := true, owner := .starting }
  | startWorker (howner : s.owner = .starting) (hstarted : s.started < n) :
      s.OwnerTakes { s with started := s.started + 1 }
  | startWorkerFails (howner : s.owner = .starting) : s.OwnerTakes { s with owner := .failing }
  | publish (howner : s.owner = .starting) (hstarted : s.started = n) :
      s.OwnerTakes { s with running := true, owner := .launching }
  | launch (howner : s.owner = .launching) :
      s.OwnerTakes { s with thread := .checking, owner := .idle }
  | launchFails (howner : s.owner = .launching) : s.OwnerTakes { s with owner := .failing }
  | unwind (howner : s.owner = .failing) :
      s.OwnerTakes { s with running := false, owner := .stopping true 0 }
  | join (howner : s.owner = .idle ∨ s.owner = .joined) :
      s.OwnerTakes { s with owner := .joiningAcceptor }
  | joinAcceptor (howner : s.owner = .joiningAcceptor) (hlive : s.thread.live = false) :
      s.OwnerTakes { s with owner := .stopping false 0 }
  | stopWorker {u : Bool} {w : Fin n} (howner : s.owner = .stopping u w) (hw : w < s.count u) :
      s.OwnerTakes { s with
        server := s.server.setWorker w { s.server.workers w with
          stopRequested := true
          stopWakes := (s.server.workers w).stopWakes + 1 }
        owner := .waking u w }
  | stopped {u : Bool} {w : ℕ} (howner : s.owner = .stopping u w) (hw : n ≤ w ∨ s.count u ≤ w) :
      s.OwnerTakes { s with owner := .joining u 0 }
  | wakeWorker {u : Bool} {w : Fin n} (howner : s.owner = .waking u w) :
      s.OwnerTakes { s with
        server := s.server.setWorker w { s.server.workers w with
          stopWakes := (s.server.workers w).stopWakes - 1
          counter := wakeEvent (s.server.workers w).counter }
        owner := .stopping u (w + 1) }
  | joinWorker {u : Bool} {w : Fin n} (howner : s.owner = .joining u w) (hw : w < s.count u)
      (hidle : s.idle w = true) : s.OwnerTakes { s with owner := .joining u (w + 1) }
  | joinedWorkers {u : Bool} {w : ℕ} (howner : s.owner = .joining u w)
      (hw : n ≤ w ∨ s.count u ≤ w) :
      s.OwnerTakes { s with owner := if u then .idle else .clearing }
  | clear (howner : s.owner = .clearing) :
      s.OwnerTakes { s with running := false, owner := .joined }

/-! ## Every step is one of them -/

private theorem ownerTakes_start {armed : Bool} (h : s.ownerStep (.start armed) = some s') :
    s.OwnerTakes s' := by
  dsimp only [ownerStep] at h
  split at h
  · rename_i howner
    split at h
    · cases h
      exact .refused howner
    · rename_i hstarted
      cases h
      cases armed with
      | false => exact .unarmed howner
      | true => exact .start howner (Bool.not_eq_true _ ▸ hstarted)
  · cases h

private theorem ownerTakes_stopWorker (h : s.ownerStep .stopWorker = some s') :
    s.OwnerTakes s' := by
  dsimp only [ownerStep] at h
  split at h
  · rename_i u w howner
    split at h
    · rename_i hw
      obtain ⟨hstep, hs'⟩ := handoff_eq_some h
      have hserver : s'.server = s.server.setWorker ⟨w, hw.1⟩ { s.server.workers ⟨w, hw.1⟩ with
          stopRequested := true
          stopWakes := (s.server.workers ⟨w, hw.1⟩).stopWakes + 1 } :=
        (Option.some.inj hstep).symm
      rw [hs', hserver]
      exact .stopWorker (w := ⟨w, hw.1⟩) howner hw.2
    · rename_i hw
      cases h
      exact .stopped howner (by omega)
  · cases h

private theorem ownerTakes_wakeWorker (h : s.ownerStep .wakeWorker = some s') :
    s.OwnerTakes s' := by
  dsimp only [ownerStep] at h
  split at h
  · rename_i u w howner
    split at h
    · rename_i hw
      obtain ⟨hstep, hs'⟩ := handoff_eq_some h
      dsimp only [Server.step, Worker.step] at hstep
      split at hstep
      · rename_i heq
        split at heq
        · cases heq
          have hserver : s'.server = s.server.setWorker ⟨w, hw⟩ { s.server.workers ⟨w, hw⟩ with
              stopWakes := (s.server.workers ⟨w, hw⟩).stopWakes - 1
              counter := wakeEvent (s.server.workers ⟨w, hw⟩).counter } :=
            (Option.some.inj hstep).symm
          rw [hs', hserver]
          exact .wakeWorker (w := ⟨w, hw⟩) howner
        · cases heq
      · cases hstep
    · cases h
  · cases h

private theorem ownerTakes_joinWorker (h : s.ownerStep .joinWorker = some s') :
    s.OwnerTakes s' := by
  dsimp only [ownerStep] at h
  split at h
  · rename_i u w howner
    split at h
    · rename_i hw
      split at h
      · rename_i hidle
        cases h
        exact .joinWorker (w := ⟨w, hw.1⟩) howner hw.2 hidle
      · cases h
    · rename_i hw
      cases h
      exact .joinedWorkers howner (by omega)
  · cases h

/-- **The steps of the owner are those above.** -/
theorem ownerTakes_step {step : OwnerStep} (h : s.ownerStep step = some s') : s.OwnerTakes s' := by
  cases step with
  | start armed => exact ownerTakes_start h
  | startWorker created =>
    dsimp only [ownerStep] at h
    split at h
    · rename_i howner
      cases created <;> cases h
      · exact .startWorkerFails howner.1
      · exact .startWorker howner.1 howner.2
    · cases h
  | publish =>
    dsimp only [ownerStep] at h
    split at h
    · rename_i howner
      cases h
      exact .publish howner.1 howner.2
    · cases h
  | launch created =>
    dsimp only [ownerStep] at h
    split at h
    · rename_i howner
      cases created <;> cases h
      · exact .launchFails howner
      · exact .launch howner
    · cases h
  | unwind =>
    dsimp only [ownerStep] at h
    split at h
    · rename_i howner
      cases h
      exact .unwind howner
    · cases h
  | join =>
    dsimp only [ownerStep] at h
    split at h
    · rename_i howner
      cases h
      exact .join howner
    · cases h
  | joinAcceptor =>
    dsimp only [ownerStep] at h
    split at h
    · rename_i howner
      cases h
      have hhalted := howner.2
      rw [halted_eq_not_live, Bool.not_eq_true'] at hhalted
      exact .joinAcceptor howner.1 hhalted
    · cases h
  | stopWorker => exact ownerTakes_stopWorker h
  | wakeWorker => exact ownerTakes_wakeWorker h
  | joinWorker => exact ownerTakes_joinWorker h
  | clear =>
    dsimp only [ownerStep] at h
    split at h
    · rename_i howner
      cases h
      exact .clear howner
    · cases h

end CacheServer

end HighCache
