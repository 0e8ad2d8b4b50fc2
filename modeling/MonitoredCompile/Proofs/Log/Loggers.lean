/-
MonitoredCompile/Proofs/Log/Loggers.lean

Loggers that nobody asks for.  Setting up other loggers does not give them a level
(`keeps_configureAll`), so that they have that of the root, which lets no debugging line
pass (`Without.not_enabled`).
-/
import MonitoredCompile.Proofs.Log.Destination

namespace MonitoredCompile

open Attempt (exec Frame Keeps)

namespace Log

/-- None of these loggers has been asked for, and the root has its own level. -/
structure Without (names : List String) (log : Log) : Prop where
  root : log.rootLevel = .warning
  loggers : ∀ entry ∈ log.loggers, entry.1 ∉ names

theorem Without.withLogger {names : List String} {log : Log} (hw : log.Without names) {name : String}
    (hother : name ∉ names) (hroot : isRoot name = false) (level : Option Level) :
    (withLogger log name level).Without names := by
  have hadded : ∀ entry ∈ register name log.loggers, entry.1 ∉ names := by
    intro entry hentry
    rw [register] at hentry
    split at hentry
    · exact hw.loggers entry hentry
    · rcases List.mem_append.mp hentry with hentry | hentry
      · exact hw.loggers entry hentry
      · rwa [List.mem_singleton.mp hentry]
  rw [Log.withLogger, hroot]
  cases level with
  | none => exact ⟨hw.root, hadded⟩
  | some l =>
    refine ⟨hw.root, fun entry hentry => ?_⟩
    obtain ⟨old, hold, rfl⟩ := List.mem_map.mp hentry
    split
    · exact hother
    · exact hadded old hold

/-- A logger is without a level if it and all above it have not been asked for. -/
theorem Without.not_enabled {log : Log} {name : String} (hroot : isRoot name = false)
    (hname : name ≠ "") (hw : log.Without (name :: ancestors name)) :
    log.enabled name .debug = false := by
  have hnone : ∀ n ∈ name :: ancestors name, findLogger n log.loggers = none := by
    intro n hn
    cases hfound : findLogger n log.loggers with
    | none => rfl
    | some level => exact absurd hn (hw.loggers _ (findLogger_mem hfound))
  obtain ⟨fuel, hfuel⟩ : ∃ fuel, name.length = fuel + 1 :=
    Nat.exists_eq_succ_of_ne_zero fun hzero => hname (String.length_eq_zero_iff.mp hzero)
  have hlevel : log.effectiveLevel name = .warning := by
    rw [effectiveLevel, hroot, hfuel, levelWithin, hnone name List.mem_cons_self]
    have habove : nearestAbove log.names name = none := by
      refine List.find?_eq_none.mpr fun a ha hstands => ?_
      obtain ⟨hmem, -⟩ := of_decide_eq_true hstands
      obtain ⟨entry, hentry, rfl⟩ := List.mem_map.mp hmem
      exact hw.loggers entry hentry (List.mem_cons_of_mem _ ha)
    dsimp only
    rw [habove]
    exact hw.root
  rw [enabled, hlevel]
  rfl

/-- The loggers that have not been asked for. -/
def StaysWithout (names : List String) (before after : Host) : Prop :=
  before.log.Without names → after.log.Without names

theorem frame_staysWithout (names : List String) : Frame (StaysWithout names) :=
  ⟨fun _ h => h, fun hab hbc h => hbc (hab h)⟩

theorem keeps_installHandler (names : List String) :
    Keeps (StaysWithout names) (fun _ => True) installHandler := by
  intro h
  rw [exec_installHandler_eq]
  split
  · exact ⟨id, fun _ _ => trivial⟩
  · split
    · exact ⟨fun hw => ⟨rfl, hw.loggers⟩, fun _ _ => trivial⟩
    · split
      · exact ⟨fun hw => ⟨rfl, hw.loggers⟩, fun _ _ => trivial⟩
      · exact ⟨id, fun _ _ => trivial⟩

theorem keeps_configure {names : List String} {name : String} (hother : name ∉ names)
    (hroot : isRoot name = false) : Keeps (StaysWithout names) (fun _ => True) (configure name) := by
  have hR := frame_staysWithout names
  have hnote (h : Host) (site : Site) (level : Level) (message : String) :
      StaysWithout names h (h.note site level message) := by
    intro hw
    refine h.note_cases (P := fun after => after.log.Without names) _ _ _ hw ?_ ?_ ?_
    · exact fun _ => hw
    · exact fun _ _ _ _ => hw
    · exact fun _ => ⟨hw.root, hw.loggers⟩
  rw [configure_eq]
  exact (keeps_installHandler names).bind hR fun _ =>
    keeps_setUp hR (fun h level hw => hw.withLogger hother hroot level) hnote
      fun h hw => ⟨hw.root, hw.loggers⟩

theorem keeps_configureAll {names asked : List String}
    (hasked : ∀ name ∈ asked, name ∉ names ∧ isRoot name = false) :
    Keeps (StaysWithout names) (fun _ => True) (forIn asked PUnit.unit fun name _ => do
      configure name
      pure (ForInStep.yield PUnit.unit)) := by
  have hR := frame_staysWithout names
  refine .forIn hR asked (fun name hname _ => ?_) _
  obtain ⟨hother, hroot⟩ := hasked name hname
  exact (keeps_configure hother hroot).bind hR fun _ => .pure hR _

end Log

end MonitoredCompile
