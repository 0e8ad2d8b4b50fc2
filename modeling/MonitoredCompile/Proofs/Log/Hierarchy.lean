/-
MonitoredCompile/Proofs/Log/Hierarchy.lean

Which level counts for a logger.  The search goes up from a name to the nearest logger
above it, and from there on (`effectiveLevel_eq`).  If no two dots of a name stand side by
side, it comes past every name that the name goes on from with a dot; so the level of the
nearest of these that has one counts, whoever asked for the others
(`effectiveLevel_of_nearest`).

Two things can get in the way.  Where two dots stand side by side the search goes past the
name before both of them, unless somebody has asked for the name before the second.  And
loggers called `r`, `ro` or `roo` are not above those that were there before them
(`InOrder`).
-/
import Mathlib.Data.List.Find
import MonitoredCompile.Proofs.Log.Quiet

namespace MonitoredCompile.Log

/-! ### The last dot -/

theorem parentName_of_not_mem {name : List Char} (h : '.' ∉ name) : parentName name = [] := by
  have hall : ∀ c ∈ name.reverse, decide (c ≠ '.') = true := by
    intro c hc
    exact decide_eq_true fun hdot => h (hdot ▸ List.mem_reverse.mp hc)
  rw [parentName, ← List.append_nil name.reverse, List.dropWhile_append_of_pos hall]
  rfl

theorem parentName_append (p : List Char) {rest : List Char} (h : '.' ∉ rest) :
    parentName (p ++ '.' :: rest) = p := by
  have hrest : ∀ c ∈ rest.reverse, decide (c ≠ '.') = true := by
    intro c hc
    exact decide_eq_true fun hdot => h (hdot ▸ List.mem_reverse.mp hc)
  rw [parentName, List.reverse_append, List.reverse_cons, List.append_assoc,
    List.dropWhile_append_of_pos hrest]
  simp

/-- A name with a dot in it ends with its last one and what comes after. -/
theorem exists_last_dot {name : List Char} (h : '.' ∈ name) :
    ∃ rest, name = parentName name ++ '.' :: rest ∧ '.' ∉ rest := by
  obtain ⟨front, back, hsplit, hfront⟩ := List.eq_append_cons_of_mem (List.mem_reverse.mpr h)
  have hname : name = back.reverse ++ '.' :: front.reverse := by
    rw [← List.reverse_reverse name, hsplit]
    simp
  have hrest : '.' ∉ front.reverse := fun hdot => hfront (List.mem_reverse.mp hdot)
  refine ⟨front.reverse, ?_, hrest⟩
  rw [hname, parentName_append _ hrest]

/-- A name goes on with a dot from its parent. -/
theorem eq_parentName_append {name : List Char} (h : parentName name ≠ []) :
    ∃ rest, name = parentName name ++ '.' :: rest := by
  have hdot : '.' ∈ name := Decidable.byContradiction fun hno => h (parentName_of_not_mem hno)
  obtain ⟨rest, hname, -⟩ := exists_last_dot hdot
  exact ⟨rest, hname⟩

theorem length_parentName {name : List Char} (h : parentName name ≠ []) :
    (parentName name).length < name.length := by
  obtain ⟨rest, hname⟩ := eq_parentName_append h
  have hlength := congrArg List.length hname
  rw [List.length_append, List.length_cons] at hlength
  omega

/-- What comes after the last dot does not matter, as long as something does. -/
theorem parentName_dropLast {p : List Char} {c : Char} (hc : c ≠ '.') :
    parentName (p ++ [c]) = parentName p := by
  rw [parentName, parentName, List.reverse_append, List.reverse_singleton, List.singleton_append,
    List.dropWhile_cons, if_pos (decide_eq_true hc)]

/-! ### Names above a name -/

theorem ancestorsWithin_cons {fuel : Nat} {name : List Char} (h : parentName name ≠ []) :
    ancestorsWithin (fuel + 1) name
      = String.ofList (parentName name) :: ancestorsWithin fuel (parentName name).dropLast := by
  rw [ancestorsWithin]
  split
  · next hnil => exact absurd hnil h
  · rfl

theorem ancestorsWithin_nil {fuel : Nat} {name : List Char} (h : parentName name = []) :
    ancestorsWithin fuel name = [] := by
  cases fuel with
  | zero => rfl
  | succ fuel => rw [ancestorsWithin, h]

/-- As many steps as the name has characters are enough. -/
theorem ancestorsWithin_of_le {fuel fuel' : Nat} {name : List Char} (h : name.length ≤ fuel)
    (h' : name.length ≤ fuel') : ancestorsWithin fuel name = ancestorsWithin fuel' name := by
  induction fuel generalizing fuel' name with
  | zero =>
    obtain rfl := List.length_eq_zero_iff.mp (Nat.le_zero.mp h)
    rw [ancestorsWithin_nil rfl, ancestorsWithin_nil rfl]
  | succ fuel ih =>
    by_cases hparent : parentName name = []
    · rw [ancestorsWithin_nil hparent, ancestorsWithin_nil hparent]
    · have hlt := length_parentName hparent
      have hdrop : (parentName name).dropLast.length = (parentName name).length - 1 :=
        List.length_dropLast
      cases fuel' with
      | zero => omega
      | succ fuel' =>
        rw [ancestorsWithin_cons hparent, ancestorsWithin_cons hparent]
        exact congrArg _ (ih (by omega) (by omega))

/-- A last character that is no dot stands for nothing more above the name. -/
theorem ancestorsWithin_concat {fuel fuel' : Nat} {p : List Char} {c : Char} (hc : c ≠ '.')
    (h : p.length < fuel) (h' : p.length ≤ fuel') :
    ancestorsWithin fuel (p ++ [c]) = ancestorsWithin fuel' p := by
  have hsame := parentName_dropLast (p := p) hc
  by_cases hparent : parentName p = []
  · rw [ancestorsWithin_nil (hsame.trans hparent), ancestorsWithin_nil hparent]
  · have hlt := length_parentName hparent
    obtain ⟨fuel, rfl⟩ := Nat.exists_eq_add_of_lt h
    cases fuel' with
    | zero => omega
    | succ fuel' =>
      have hdrop : (parentName p).dropLast.length = (parentName p).length - 1 := List.length_dropLast
      have hparent' : parentName (p ++ [c]) ≠ [] := by rwa [hsame]
      rw [ancestorsWithin_cons hparent', ancestorsWithin_cons hparent, hsame]
      exact congrArg _ (ancestorsWithin_of_le (by omega) (by omega))

/-- A name goes on with a dot from each name above it. -/
theorem exists_of_mem_ancestorsWithin {fuel : Nat} {name : List Char} {a : String}
    (h : a ∈ ancestorsWithin fuel name) : ∃ rest, name = a.toList ++ '.' :: rest := by
  induction fuel generalizing name with
  | zero => cases h
  | succ fuel ih =>
    by_cases hparent : parentName name = []
    · rw [ancestorsWithin_nil hparent] at h
      cases h
    · obtain ⟨last, hname⟩ := eq_parentName_append hparent
      rw [ancestorsWithin_cons hparent] at h
      obtain rfl | h := List.mem_cons.mp h
      · exact ⟨last, by rwa [String.toList_ofList]⟩
      · obtain ⟨rest, hrest⟩ := ih h
        obtain ⟨c, hc⟩ : ∃ c, parentName name = a.toList ++ '.' :: rest ++ [c] :=
          ⟨_, hrest ▸ (List.dropLast_concat_getLast hparent).symm⟩
        refine ⟨rest ++ c :: '.' :: last, ?_⟩
        rw [hname, hc]
        simp

/-- The names above a name are shorter, and none is empty. -/
theorem mem_ancestorsWithin {fuel : Nat} {name : List Char} {a : String}
    (h : a ∈ ancestorsWithin fuel name) : a ≠ "" ∧ a.length < name.length := by
  induction fuel generalizing name with
  | zero => cases h
  | succ fuel ih =>
    by_cases hparent : parentName name = []
    · rw [ancestorsWithin_nil hparent] at h
      cases h
    · have hlt := length_parentName hparent
      rw [ancestorsWithin_cons hparent] at h
      obtain rfl | h := List.mem_cons.mp h
      · refine ⟨fun hempty => hparent ?_, ?_⟩
        · exact String.ofList_eq_empty_iff.mp hempty
        · rwa [String.length_ofList]
      · obtain ⟨hne, hshort⟩ := ih h
        rw [List.length_dropLast] at hshort
        exact ⟨hne, by omega⟩

/-- No two dots of the name stand side by side. -/
def Spaced (name : List Char) : Prop := ∀ front back, name ≠ front ++ '.' :: '.' :: back

theorem Spaced.parentName {name : List Char} (h : Spaced name) : Spaced (parentName name) := by
  intro front back hparent
  by_cases hdot : '.' ∈ name
  · obtain ⟨rest, hname, -⟩ := exists_last_dot hdot
    apply h front (back ++ '.' :: rest)
    rw [hname, hparent]
    simp
  · rw [parentName_of_not_mem hdot] at hparent
    simp at hparent

/-- Above a name stand its parent and what stands above that. -/
theorem Spaced.ancestors {name : String} (h : Spaced name.toList)
    (hparent : Log.parentName name.toList ≠ []) :
    ancestors name = String.ofList (Log.parentName name.toList)
      :: ancestors (String.ofList (Log.parentName name.toList)) := by
  obtain ⟨rest, hname⟩ := eq_parentName_append hparent
  have hlt := length_parentName hparent
  obtain ⟨fuel, hfuel⟩ : ∃ fuel, name.length = fuel + 1 := ⟨name.length - 1, by
    have hlength : name.length = name.toList.length := rfl
    omega⟩
  rw [Log.ancestors, hfuel, ancestorsWithin_cons hparent]
  refine congrArg _ ?_
  -- The parent does not end in a dot, so its last character can be cut off.
  generalize hp : Log.parentName name.toList = p at *
  obtain ⟨q, c, rfl⟩ : ∃ q c, p = q ++ [c] := by
    rcases List.eq_nil_or_concat p with hnil | ⟨q, c, hq⟩
    · exact absurd hnil hparent
    · exact ⟨q, c, hq.trans (List.concat_eq_append ..)⟩
  have hc : c ≠ '.' := by
    rintro rfl
    apply h q rest
    rw [hname]
    simp
  have hlength : name.length = name.toList.length := rfl
  rw [List.length_append, List.length_singleton] at hlt
  rw [List.dropLast_concat, Log.ancestors, String.length_ofList, String.toList_ofList]
  symm
  apply ancestorsWithin_concat hc
  · simp
  · omega

theorem mem_ancestors {name a : String} (h : a ∈ ancestors name) : a ≠ "" ∧ a.length < name.length :=
  mem_ancestorsWithin h

theorem ancestors_root {name : String} (h : isRoot name = true) : ancestors name = [] := by
  obtain rfl | rfl : name = "" ∨ name = "root" := of_decide_eq_true h
  · rfl
  · rfl

/-! ### The search -/

/-- Only loggers below the root are kept in the list. -/
def Unrooted (log : Log) : Prop := ∀ entry ∈ log.loggers, isRoot entry.1 = false

variable {log : Log} {name : String}

theorem Unrooted.isRoot_of_mem (h : log.Unrooted) (hname : name ∈ log.names) :
    isRoot name = false := by
  obtain ⟨entry, hentry, rfl⟩ := List.mem_map.mp hname
  exact h entry hentry

/-- A logger that nobody has asked for has no level. -/
theorem ownLevel_of_not_mem (hroot : isRoot name = false) (h : name ∉ log.names) :
    log.ownLevel name = none := by
  rw [ownLevel, hroot, if_neg Bool.false_ne_true]
  cases hfound : findLogger name log.loggers with
  | none => rfl
  | some level => exact absurd (List.mem_map_of_mem (findLogger_mem hfound)) h

/-- The nearest logger above a name is one that has been asked for, and its name is one of
those above. -/
theorem nearestAbove_mem {names : List String} {above : String}
    (h : nearestAbove names name = some above) : above ∈ names ∧ above ∈ ancestors name := by
  rw [nearestAbove] at h
  have hstands := List.find?_some h
  exact ⟨(of_decide_eq_true hstands).1, List.mem_of_find?_eq_some h⟩

theorem levelWithin_succ (fuel : Nat) (hroot : isRoot name = false) :
    log.levelWithin (fuel + 1) name
      = (log.ownLevel name).getD (((nearestAbove log.names name).map (log.levelWithin fuel)).getD
        log.rootLevel) := by
  rw [levelWithin, ownLevel, hroot]
  rcases findLogger name log.loggers with - | - | level
  · cases nearestAbove log.names name <;> rfl
  · cases nearestAbove log.names name <;> rfl
  · rfl

/-- As many steps as the name has characters are enough. -/
theorem levelWithin_of_le (hlog : log.Unrooted) {fuel fuel' : Nat} (hroot : isRoot name = false)
    (h : name.length ≤ fuel) (h' : name.length ≤ fuel') :
    log.levelWithin fuel name = log.levelWithin fuel' name := by
  have hpos : 0 < name.length := by
    apply Nat.pos_of_ne_zero
    intro hzero
    rw [String.length_eq_zero_iff.mp hzero] at hroot
    cases hroot
  induction fuel generalizing fuel' name with
  | zero => omega
  | succ fuel ih =>
    cases fuel' with
    | zero => omega
    | succ fuel' =>
      rw [levelWithin_succ fuel hroot, levelWithin_succ fuel' hroot]
      congr 2
      cases hnearest : nearestAbove log.names name with
      | none => rfl
      | some above =>
        obtain ⟨hmem, hancestor⟩ := nearestAbove_mem hnearest
        obtain ⟨hne, hshort⟩ := mem_ancestors hancestor
        have habove := hlog.isRoot_of_mem hmem
        have hpos : 0 < above.length := Nat.pos_of_ne_zero fun hzero =>
          hne (String.length_eq_zero_iff.mp hzero)
        exact congrArg some (ih habove (by omega) (by omega) hpos)

/-- The level that counts is that of the logger itself, or else the one that counts for the
nearest logger above it, or else that of the root. -/
theorem effectiveLevel_eq (hlog : log.Unrooted) (hroot : isRoot name = false) :
    log.effectiveLevel name
      = (log.ownLevel name).getD (((nearestAbove log.names name).map log.effectiveLevel).getD
        log.rootLevel) := by
  have hpos : name.length ≠ 0 := by
    intro hzero
    rw [String.length_eq_zero_iff.mp hzero] at hroot
    cases hroot
  obtain ⟨fuel, hfuel⟩ := Nat.exists_eq_succ_of_ne_zero hpos
  rw [effectiveLevel, hroot, if_neg Bool.false_ne_true, hfuel, levelWithin_succ fuel hroot]
  congr 2
  cases hnearest : nearestAbove log.names name with
  | none => rfl
  | some above =>
    obtain ⟨hmem, hancestor⟩ := nearestAbove_mem hnearest
    obtain ⟨-, hshort⟩ := mem_ancestors hancestor
    have habove := hlog.isRoot_of_mem hmem
    show some (log.levelWithin fuel above) = some (log.effectiveLevel above)
    rw [effectiveLevel, habove, if_neg Bool.false_ne_true]
    exact congrArg some (levelWithin_of_le hlog habove (by omega) (Nat.le_refl _))

/-! ### What covers a name -/

/-- The name is the other one, or stands above it: the other goes on from it with a dot. -/
def Covers (above name : String) : Prop := above = name ∨ ∃ rest, name = above ++ "." ++ rest

theorem covers_iff {above name : String} :
    Covers above name ↔ above = name ∨ ∃ rest, name.toList = above.toList ++ '.' :: rest := by
  refine or_congr_right ⟨?_, ?_⟩
  · rintro ⟨rest, rfl⟩
    exact ⟨rest.toList, by simp⟩
  · rintro ⟨rest, hname⟩
    refine ⟨String.ofList rest, String.toList_inj.mp ?_⟩
    rw [hname]
    simp

/-- What covers a name is the name, its parent, or covers the parent. -/
theorem Covers.of_parent {above name : String} (h : Covers above name) (hne : above ≠ name) :
    Covers above (String.ofList (parentName name.toList)) := by
  obtain ⟨rest, hname⟩ := (covers_iff.mp h).resolve_left hne
  have hdot : '.' ∈ name.toList := by
    rw [hname]
    simp
  obtain ⟨last, hparent, hlast⟩ := exists_last_dot hdot
  apply covers_iff.mpr
  rw [String.toList_ofList]
  generalize parentName name.toList = p at *
  -- The dot after the covering name is the last one, or it comes before that.
  obtain ⟨k, hp, hdots⟩ | ⟨k, habove, hdots⟩ := List.append_eq_append_iff.mp
    (hname.symm.trans hparent)
  · cases k with
    | nil =>
      rw [List.append_nil] at hp
      exact .inl (String.toList_inj.mp (hp ▸ String.toList_ofList.symm))
    | cons c k =>
      cases hdots
      exact .inr ⟨k, hp⟩
  · cases k with
    | nil =>
      rw [List.append_nil] at habove
      exact .inl (String.toList_inj.mp (habove ▸ String.toList_ofList.symm))
    | cons c k =>
      cases hdots
      exact absurd (List.mem_append_right _ List.mem_cons_self) hlast

theorem Covers.parent {above name : String}
    (h : Covers above (String.ofList (parentName name.toList)))
    (hparent : parentName name.toList ≠ []) : Covers above name := by
  obtain ⟨last, hname⟩ := eq_parentName_append hparent
  apply covers_iff.mpr
  right
  obtain rfl | ⟨rest, hrest⟩ := covers_iff.mp h
  · exact ⟨last, by rwa [String.toList_ofList]⟩
  · rw [String.toList_ofList] at hrest
    refine ⟨rest ++ '.' :: last, ?_⟩
    rw [hname, hrest]
    simp

theorem Covers.length_lt {above name : String} (h : Covers above name) (hne : above ≠ name) :
    above.length < name.length := by
  obtain ⟨rest, rfl⟩ := h.resolve_left hne
  simp only [String.length_append]
  have hdot : ".".length = 1 := rfl
  omega

theorem Covers.dot_mem {above name : String} (h : Covers above name) (hne : above ≠ name) :
    '.' ∈ name.toList := by
  obtain ⟨rest, hname⟩ := (covers_iff.mp h).resolve_left hne
  rw [hname]
  exact List.mem_append_right _ List.mem_cons_self

/-- Nothing stands above the root, under either of its names. -/
theorem Covers.of_root {above name : String} (h : Covers above name) (hroot : isRoot name = true) :
    above = name := by
  refine Decidable.byContradiction fun hne => absurd (h.dot_mem hne) ?_
  obtain rfl | rfl : name = "" ∨ name = "root" := of_decide_eq_true hroot
  · decide
  · decide

/-- If nothing comes before the last dot of a name, only the root stands above it. -/
theorem Covers.eq_empty {above name : String} (h : Covers above name) (hne : above ≠ name)
    (hparent : parentName name.toList = []) : above = "" := by
  have habove := h.of_parent hne
  rw [hparent] at habove
  exact habove.of_root rfl

/-- The name is one of those above the other. -/
theorem covers_of_mem_ancestors {above name : String} (h : above ∈ ancestors name) :
    Covers above name :=
  covers_iff.mpr (.inr (exists_of_mem_ancestorsWithin h))

/-! ### Names that the search does not miss -/

/-- Whoever asked for `r`, `ro` or `roo` did so before anybody asked for a name that goes on
from it and covers this one. -/
def InOrder (names : List String) (name : String) : Prop :=
  ∀ above ∈ names, beginsRoot above = true → ∀ below, Covers above below → Covers below name →
    above ≠ below → names.idxOf above < names.idxOf below

theorem InOrder.standsAbove_iff {names : List String} (h : InOrder names name) {above below : String}
    (habove : above ∈ ancestors below) (hbelow : Covers below name) :
    standsAbove names above below = true ↔ above ∈ names := by
  refine ⟨fun hstands => (of_decide_eq_true hstands).1, fun hmem => ?_⟩
  have hne : above ≠ below := fun hsame => by
    have hshort := (mem_ancestors habove).2
    rw [hsame] at hshort
    exact Nat.lt_irrefl _ hshort
  exact decide_eq_true ⟨hmem, fun hroot =>
    h above hmem hroot below (covers_of_mem_ancestors habove) hbelow hne⟩

/-- The level that counts is that of the logger itself, or else the one that counts for its
parent, whether or not somebody has asked for that. -/
theorem effectiveLevel_parent (hlog : log.Unrooted) (hroot : isRoot name = false)
    (hspaced : Spaced name.toList) (horder : InOrder log.names name) :
    log.effectiveLevel name = (log.ownLevel name).getD
      (if parentName name.toList = [] then log.rootLevel
        else log.effectiveLevel (String.ofList (parentName name.toList))) := by
  rw [effectiveLevel_eq hlog hroot]
  refine congrArg _ ?_
  split
  · next hparent =>
    rw [nearestAbove, ancestors, ancestorsWithin_nil hparent]
    rfl
  · next hparent =>
    generalize hp : String.ofList (parentName name.toList) = parent
    have hancestors := hspaced.ancestors hparent
    rw [hp] at hancestors
    have hmem : parent ∈ ancestors name := by
      rw [hancestors]
      exact List.mem_cons_self
    rw [nearestAbove, hancestors, List.find?_cons]
    by_cases hasked : parent ∈ log.names
    · rw [(horder.standsAbove_iff hmem (.inl rfl)).mpr hasked]
      rfl
    · have hstands : standsAbove log.names parent name = false := by
        rw [← Bool.not_eq_true, horder.standsAbove_iff hmem (.inl rfl)]
        exact hasked
      rw [hstands]
      dsimp only
      cases hparentRoot : isRoot parent with
      | true =>
        -- The root has no name above it, under either of its own.
        have hnone : ancestors parent = [] := ancestors_root hparentRoot
        rw [hnone, effectiveLevel, hparentRoot]
        rfl
      | false =>
        -- The same loggers stand above the name and above its parent.
        have hsame : (ancestors parent).find? (fun above => standsAbove log.names above name)
            = nearestAbove log.names parent := by
          refine List.find?_congr fun above habove => Bool.eq_iff_iff.mpr ?_
          have habove' : above ∈ ancestors name := by
            rw [hancestors]
            exact List.mem_cons_of_mem _ habove
          rw [horder.standsAbove_iff habove' (.inl rfl),
            horder.standsAbove_iff habove (covers_of_mem_ancestors hmem)]
        rw [hsame, effectiveLevel_eq hlog hparentRoot, ownLevel_of_not_mem hparentRoot hasked]
        rfl

/-! ### The nearest level -/

/-- The level of the nearest of the names that cover a name, as far as they have one. -/
def Nearest (own : String → Option Level) (name : String) (level : Level) : Prop :=
  ∃ above, Covers above name ∧ own above = some level ∧
    ∀ nearer, Covers nearer name → above.length < nearer.length → own nearer = none

/-- **The level that counts.**  It is the nearest one among the name and the names above it,
and that of the root if none of them has one. -/
theorem effectiveLevel_of_nearest (hlog : log.Unrooted) {own : String → Option Level}
    (hroots : ∀ n, isRoot n = true → own n = none)
    (hown : ∀ n, isRoot n = false → log.ownLevel n = own n) {name : String}
    (hspaced : Spaced name.toList) (horder : InOrder log.names name) :
    (∀ level, Nearest own name level → log.effectiveLevel name = level) ∧
      ((∀ above, Covers above name → own above = none) → log.effectiveLevel name = log.rootLevel) := by
  induction hlength : name.length using Nat.strongRecOn generalizing name with
  | ind n ih =>
    subst hlength
    cases hroot : isRoot name with
    | true =>
      have hnone (above : String) (habove : Covers above name) : own above = none :=
        hroots above (habove.of_root hroot ▸ hroot)
      refine ⟨?_, fun _ => by rw [effectiveLevel, hroot]; rfl⟩
      rintro level ⟨above, habove, hlevel, -⟩
      cases (hnone above habove).symm.trans hlevel
    | false =>
      rw [effectiveLevel_parent hlog hroot hspaced horder, hown name hroot]
      cases hself : own name with
      | some level' =>
        refine ⟨?_, fun hnone => ?_⟩
        · rintro level ⟨above, habove, hlevel, hnearer⟩
          by_cases hne : above = name
          · subst hne
            exact Option.some.inj (hself.symm.trans hlevel)
          · cases hself.symm.trans (hnearer name (.inl rfl) (habove.length_lt hne))
        · cases hself.symm.trans (hnone name (.inl rfl))
      | none =>
        rw [Option.getD_none]
        split
        · next hparent =>
          have hnone (above : String) (habove : Covers above name) : own above = none := by
            by_cases hne : above = name
            · rw [hne, hself]
            · exact hroots above (habove.eq_empty hne hparent ▸ rfl)
          refine ⟨?_, fun _ => rfl⟩
          rintro level ⟨above, habove, hlevel, -⟩
          cases (hnone above habove).symm.trans hlevel
        · next hparent =>
          -- The name has no level of its own, so everything is as for its parent.
          have hshort := length_parentName hparent
          rw [← String.length_ofList] at hshort
          have hspaced' : Spaced (String.ofList (parentName name.toList)).toList := by
            rw [String.toList_ofList]
            exact hspaced.parentName
          have horder' : InOrder log.names (String.ofList (parentName name.toList)) :=
            fun above hmem hbegins below habove hbelow hne =>
              horder above hmem hbegins below habove (hbelow.parent hparent) hne
          obtain ⟨hnearest, hno⟩ := ih _ hshort hspaced' horder' rfl
          refine ⟨?_, fun hnone => hno fun above habove => hnone above (habove.parent hparent)⟩
          rintro level ⟨above, habove, hlevel, hnearer⟩
          have hne : above ≠ name := by
            rintro rfl
            cases hself.symm.trans hlevel
          refine hnearest level ⟨above, habove.of_parent hne, hlevel, fun nearer hcovers hlt => ?_⟩
          exact hnearer nearer (hcovers.parent hparent) hlt

end MonitoredCompile.Log
