/-
MonitoredCompile/Proofs/FileSystem/Walks.lean

Walks in different file systems compared.  A walk goes the same way wherever the
things on it are alike (`Leads.mono`), it has only one end (`Leads.unique`), and so
two walks of the same names in file systems that nowhere disagree have the same
end (`Leads.unique_of_agree`).  Walks of several names are put together and taken
apart before the last name (`Leads.concat`, `Leads.of_concat`).
-/
import MonitoredCompile.FileSystem.Walk

namespace MonitoredCompile

/-- Walks cannot tell the two apart. -/
structure Entry.Alike (e e' : Entry) : Prop where
  dir : e = .dir ↔ e' = .dir
  link : ∀ target, e = .link target ↔ e' = .link target

namespace Entry.Alike

theorem refl (e : Entry) : Alike e e := ⟨.rfl, fun _ => .rfl⟩

theorem symm {e e' : Entry} (h : Alike e e') : Alike e' e :=
  ⟨h.dir.symm, fun target => (h.link target).symm⟩

theorem trans {a b c : Entry} (hab : Alike a b) (hbc : Alike b c) : Alike a c :=
  ⟨hab.dir.trans hbc.dir, fun target => (hab.link target).trans (hbc.link target)⟩

theorem ofFiles (f f' : File) : Alike (.file f) (.file f') := ⟨by simp, by simp⟩

end Entry.Alike

/-- No walk goes on from there. -/
structure Entry.Plain (e : Entry) : Prop where
  ne_dir : e ≠ .dir
  ne_link : ∀ target, e ≠ .link target

theorem Entry.Plain.file (f : File) : Entry.Plain (.file f) := ⟨by simp, by simp⟩

theorem Entry.Plain.alike {e e' : Entry} (h : e.Plain) (halike : Alike e e') : e'.Plain :=
  ⟨fun hdir => h.ne_dir (halike.dir.mpr hdir),
    fun target hlink => h.ne_link target ((halike.link target).mpr hlink)⟩

namespace FileSystem.Leads

variable {look look' : Location → Option Entry} {follow : Bool} {links links' : Nat}
  {here there there' : Location} {names : List String}

/-! ### The same walk in another file system -/

/-- A walk goes the same way if everything on it has something like it in the same
place.  Where it ends at nothing, there must be no link to follow instead. -/
theorem mono (h : Leads look follow links here names there)
    (hsub : ∀ l e, look l = some e → ∃ e', look' l = some e' ∧ Entry.Alike e e')
    (hend : look there = none → ∀ target, look' there = some (.link target) → follow = false) :
    Leads look' follow links here names there := by
  have hdir {l : Location} (hl : look l = some .dir) : look' l = some .dir := by
    obtain ⟨e', he', halike⟩ := hsub l .dir hl
    rw [he', halike.dir.mp rfl]
  induction h with
  | here hl =>
    obtain ⟨e', he', -⟩ := hsub _ _ hl
    exact .here he'
  | stay hl _ ih => exact .stay (hdir hl) (ih hend)
  | up hl _ ih => exact .up (hdir hl) (ih hend)
  | @last links here name hl hstep hlink =>
    refine .last (hdir hl) hstep fun target htarget => ?_
    -- Only at its end may a walk come to nothing, so only there can a link be new.
    cases hlook : look (here ++ [name]) with
    | none => exact hend hlook target htarget
    | some e =>
      obtain ⟨e', he', halike⟩ := hsub _ _ hlook
      rw [htarget, Option.some.injEq] at he'
      exact hlink target (by rw [hlook, (halike.link target).mpr he'.symm])
  | @down links here name e rest there hl hstep hlook hlink hrest _ ih =>
    obtain ⟨e', he', halike⟩ := hsub _ _ hlook
    exact .down (hdir hl) hstep he'
      (fun target htarget => hlink target ((halike.link target).mpr htarget)) hrest (ih hend)
  | @jump links here name target rest there hl hstep hlook hfollow _ ih =>
    obtain ⟨e', he', halike⟩ := hsub _ _ hlook
    rw [(halike.link target).mp rfl] at he'
    exact .jump (hdir hl) hstep he' hfollow (ih hend)

/-- A walk that ends at no link may follow links at its end. -/
theorem follows (h : Leads look false links here names there)
    (hend : ∀ target, look there ≠ some (.link target)) :
    Leads look true links here names there := by
  induction h with
  | here hl => exact .here hl
  | stay hl _ ih => exact .stay hl (ih hend)
  | up hl _ ih => exact .up hl (ih hend)
  | last hl hstep _ => exact .last hl hstep fun target htarget => absurd htarget (hend target)
  | down hl hstep hlook hlink hrest _ ih => exact .down hl hstep hlook hlink hrest (ih hend)
  | jump hl hstep hlook _ _ ih => exact .jump hl hstep hlook (fun _ => rfl) (ih hend)

/-- Only from a directory does a walk go on. -/
theorem dir_of_cons {name : String} {rest : List String}
    (h : Leads look follow links here (name :: rest) there) : look here = some .dir := by
  generalize hnames : name :: rest = names at h
  cases h with
  | here => cases hnames
  | stay hl | up hl | last hl | down hl | jump hl => exact hl

/-! ### One end only -/

theorem of_stay {rest : List String} (h : Leads look follow links here ("." :: rest) there) :
    Leads look follow links here rest there := by
  generalize hnames : "." :: rest = names at h
  cases h with
  | here => cases hnames
  | stay _ h => rwa [(List.cons.inj hnames).2]
  | up => exact absurd (List.cons.inj hnames).1 (by decide)
  | last _ hstep | down _ hstep | jump _ hstep =>
    exact absurd (List.cons.inj hnames).1.symm hstep.ne_here

theorem of_up {rest : List String} (h : Leads look follow links here (".." :: rest) there) :
    Leads look follow links here.dropLast rest there := by
  generalize hnames : ".." :: rest = names at h
  cases h with
  | here => cases hnames
  | stay => exact absurd (List.cons.inj hnames).1 (by decide)
  | up _ h => rwa [(List.cons.inj hnames).2]
  | last _ hstep | down _ hstep | jump _ hstep =>
    exact absurd (List.cons.inj hnames).1.symm hstep.ne_above

theorem unique (h : Leads look follow links here names there)
    (h' : Leads look follow links' here names there') : there = there' := by
  induction h generalizing links' there' with
  | here hl => cases h'; rfl
  | stay _ _ ih => exact ih h'.of_stay
  | up _ _ ih => exact ih h'.of_up
  | @last links here name hl hstep hlink =>
    cases h' with
    | stay | up => first | exact absurd rfl hstep.ne_here | exact absurd rfl hstep.ne_above
    | last => rfl
    | down _ _ _ _ hrest => exact absurd rfl hrest
    | jump _ _ hlook hfollow =>
      -- A link at the end is followed in both walks or in neither.
      have hf := hfollow rfl
      rw [hlink _ hlook] at hf
      cases hf
  | @down links here name e rest there hl hstep hlook hlink hrest _ ih =>
    cases h' with
    | stay | up => first | exact absurd rfl hstep.ne_here | exact absurd rfl hstep.ne_above
    | last => exact absurd rfl hrest
    | down _ _ _ _ _ h' => exact ih h'
    | jump _ _ hlook' =>
      rw [hlook, Option.some.injEq] at hlook'
      exact absurd hlook' (hlink _)
  | @jump links here name target rest there hl hstep hlook hfollow _ ih =>
    cases h' with
    | stay | up => first | exact absurd rfl hstep.ne_here | exact absurd rfl hstep.ne_above
    | last _ _ hlink =>
      have hf := hfollow rfl
      rw [hlink _ hlook] at hf
      cases hf
    | down _ _ hlook' hlink =>
      rw [hlook, Option.some.injEq] at hlook'
      exact absurd hlook'.symm (hlink _)
    | jump _ _ hlook' _ h' =>
      rw [hlook, Option.some.injEq] at hlook'
      cases hlook'
      exact ih h'

/-- Where both say what is at a location, they say the same. -/
def Agree (look look' : Location → Option Entry) : Prop :=
  ∀ l e e', look l = some e → look' l = some e' → e = e'

/-- The same names lead to the same end wherever they lead to an end, if nothing
on the two ways is different. -/
theorem unique_of_agree (hagree : Agree look look')
    (h : Leads look follow links here names there) (h' : Leads look' follow links' here names there')
    (hend : look there = none → ∀ target, look' there = some (.link target) → follow = false)
    (hend' : look' there' = none → ∀ target, look there' = some (.link target) → follow = false) :
    there = there' := by
  -- Both walks go the same way in the union of the two.
  let both : Location → Option Entry := fun l => (look l).or (look' l)
  have hboth : ∀ l e, look l = some e → ∃ e', both l = some e' ∧ Entry.Alike e e' :=
    fun l e hl => ⟨e, by simp [both, hl], .refl e⟩
  have hboth' : ∀ l e, look' l = some e → ∃ e', both l = some e' ∧ Entry.Alike e e' := by
    intro l e hl
    refine ⟨e, ?_, .refl e⟩
    cases hlook : look l with
    | none => simp [both, hlook, hl]
    | some e₁ => simp [both, hlook, hagree l e₁ e hlook hl]
  refine unique (h.mono hboth fun hnone target htarget => ?_)
    (h'.mono hboth' fun hnone target htarget => ?_)
  · exact hend hnone target (by simpa [both, hnone] using htarget)
  · exact hend' hnone target (by simpa [both, hnone] using htarget)

/-! ### The last name -/

/-- The walk of a directory and then of more names in it. -/
theorem append {rest : List String} (hrest : rest ≠ []) (h : Leads look true links here names there)
    (hdir : look there = some .dir) (hmore : ∀ links, Leads look follow links there rest there') :
    Leads look follow links here (names ++ rest) there' := by
  induction h with
  | here => exact hmore _
  | stay hl _ ih => exact .stay hl (ih hdir hmore)
  | up hl _ ih => exact .up hl (ih hdir hmore)
  | last hl hstep _ => exact .down hl hstep hdir (by simp) (by simpa using hrest) (hmore _)
  | down hl hstep hlook hlink _ _ ih =>
    exact .down hl hstep hlook hlink (by simp [hrest]) (ih hdir hmore)
  | jump hl hstep hlook _ _ ih =>
    rw [List.cons_append]
    refine .jump hl hstep hlook (by simp [hrest]) ?_
    rw [← List.append_assoc]
    exact ih hdir hmore

/-- The walk of a directory and then of a name in it. -/
theorem concat {name : String} (h : Leads look true links here names there)
    (hdir : look there = some .dir) (hstep : IsStep name)
    (hlink : ∀ target, look (there ++ [name]) = some (.link target) → follow = false) :
    Leads look follow links here (names ++ [name]) (there ++ [name]) :=
  h.append (by simp) hdir fun _ => .last hdir hstep hlink

/-- The walk of several names goes through the directory that all but the last
lead to. -/
theorem of_concat {name : String} (h : Leads look follow links here (names ++ [name]) there) :
    ∃ d links', Leads look true links here names d ∧ look d = some .dir ∧
      Leads look follow links' d [name] there := by
  generalize hall : names ++ [name] = all at h
  -- In each case either no name is left before the last one, and the directory is
  -- here, or the first of them is taken and the rest is another walk of this form.
  induction h generalizing names with
  | here hl => simp at hall
  | @stay links here rest there hl hwalk ih =>
    cases names with
    | nil =>
      obtain ⟨rfl, rfl⟩ := List.cons.inj hall
      exact ⟨here, links, .here hl, hl, .stay hl hwalk⟩
    | cons first more =>
      obtain ⟨rfl, hrest⟩ := List.cons.inj hall
      obtain ⟨d, links', hd, hdir, hlast⟩ := ih hrest
      exact ⟨d, links', .stay hl hd, hdir, hlast⟩
  | @up links here rest there hl hwalk ih =>
    cases names with
    | nil =>
      obtain ⟨rfl, rfl⟩ := List.cons.inj hall
      exact ⟨here, links, .here hl, hl, .up hl hwalk⟩
    | cons first more =>
      obtain ⟨rfl, hrest⟩ := List.cons.inj hall
      obtain ⟨d, links', hd, hdir, hlast⟩ := ih hrest
      exact ⟨d, links', .up hl hd, hdir, hlast⟩
  | @last links here last hl hstep hlink =>
    cases names with
    | nil =>
      obtain ⟨rfl, -⟩ := List.cons.inj hall
      exact ⟨here, links, .here hl, hl, .last hl hstep hlink⟩
    | cons first more => simp at hall
  | @down links here first e rest there hl hstep hlook hlink hrest hwalk ih =>
    cases names with
    | nil =>
      obtain ⟨-, rfl⟩ := List.cons.inj hall
      exact absurd rfl hrest
    | cons first' more =>
      obtain ⟨rfl, hmore⟩ := List.cons.inj hall
      obtain ⟨d, links', hd, hdir, hlast⟩ := ih hmore
      refine ⟨d, links', ?_, hdir, hlast⟩
      -- What was a step down before the last name may now be the last step.
      cases more with
      | nil =>
        cases hd
        exact .last hl hstep fun target htarget => absurd (hlook.symm.trans htarget)
          (by simpa using fun h => hlink target h)
      | cons next more => exact .down hl hstep hlook hlink (by simp) hd
  | @jump links here first target rest there hl hstep hlook hfollow hwalk ih =>
    cases names with
    | nil =>
      obtain ⟨rfl, rfl⟩ := List.cons.inj hall
      exact ⟨here, links + 1, .here hl, hl, .jump hl hstep hlook hfollow hwalk⟩
    | cons first' more =>
      obtain ⟨rfl, hmore⟩ := List.cons.inj hall
      obtain ⟨d, links', hd, hdir, hlast⟩ :=
        ih ((List.append_assoc _ _ _).trans (congrArg (steps target ++ ·) hmore))
      exact ⟨d, links', .jump hl hstep hlook (fun _ => rfl) hd, hdir, hlast⟩

/-- A dot at the end asks for a directory. -/
theorem concat_dot_iff :
    Leads look true links here (names ++ ["."]) there ↔
      Leads look true links here names there ∧ look there = some .dir := by
  constructor
  · intro h
    obtain ⟨d, links', hd, hdir, hlast⟩ := h.of_concat
    cases hlast.of_stay
    exact ⟨hd, hdir⟩
  · rintro ⟨h, hdir⟩
    exact h.append (by simp) hdir fun _ => .stay hdir (.here hdir)

end FileSystem.Leads

end MonitoredCompile
