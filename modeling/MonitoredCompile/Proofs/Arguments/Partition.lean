/-
MonitoredCompile/Proofs/Arguments/Partition.lean

What classification makes of a command line.  The tokens that end in `.topl` go to
the instrumentor, by their suffix alone.  The others are read from left to right as
plain arguments and pairs of `-d` and a directory (`ReadsAs`); only a `-d` that is
the last of them can be left without one.  Every list of tokens can be read in
exactly one way, which is how the second sweep reads it (`ReadsAs.sweeps`,
`exists_readsAs`), so this determines the classified arguments (`classify_iff`).
-/
import Mathlib.Data.List.DropRight
import MonitoredCompile.Proofs.Arguments.Plain

namespace MonitoredCompile.Arguments

open Attempt (exec exec_bind_eq_ok Frame Keeps)

/-! ### Reading from left to right -/

/-- The tokens that do not end in `.topl`. -/
def ordinary (tokens : List String) : List String :=
  tokens.filter fun token => !hasSuffix ".topl" token

/-- The tokens are an interleaving of the plain ones and of pairs of `-d` and one of
`dirs`; at the end there may be a `-d` alone. -/
inductive ReadsAs : List String → (plain dirs : List String) → (alone : Bool) → Prop
  | nil : ReadsAs [] [] [] false
  | alone : ReadsAs ["-d"] [] [] true
  | pair {dir rest plain dirs alone} : ReadsAs rest plain dirs alone →
      ReadsAs ("-d" :: dir :: rest) plain (dir :: dirs) alone
  | plain {token rest plain dirs alone} : token ≠ "-d" → ReadsAs rest plain dirs alone →
      ReadsAs (token :: rest) (token :: plain) dirs alone

/-- Every list of tokens can be read. -/
theorem exists_readsAs : (tokens : List String) → ∃ plain dirs alone, ReadsAs tokens plain dirs alone
  | [] => ⟨[], [], false, .nil⟩
  | [token] => by
    by_cases h : token = "-d"
    · exact ⟨[], [], true, h ▸ .alone⟩
    · exact ⟨[token], [], false, .plain h .nil⟩
  | token :: next :: rest => by
    by_cases h : token = "-d"
    · obtain ⟨plain, dirs, alone, hreads⟩ := exists_readsAs rest
      exact ⟨plain, next :: dirs, alone, h ▸ .pair hreads⟩
    · obtain ⟨plain, dirs, alone, hreads⟩ := exists_readsAs (next :: rest)
      exact ⟨token :: plain, dirs, alone, .plain h hreads⟩

/-- The tokens of a pair. -/
def flagPair (dir : String) : List String := ["-d", dir]

/-- What is left over at the end of a reading. -/
def leftOver (alone : Bool) : List String := if alone then ["-d"] else []

/-- Reading loses no token and adds none. -/
theorem ReadsAs.perm {tokens plain dirs : List String} {alone : Bool}
    (h : ReadsAs tokens plain dirs alone) :
    tokens.Perm (plain ++ dirs.flatMap flagPair ++ leftOver alone) := by
  induction h with
  | nil => exact .refl _
  | alone => exact .refl _
  | @pair dir rest plain dirs alone _ ih =>
    have hmove : (flagPair dir ++ (plain ++ dirs.flatMap flagPair ++ leftOver alone)).Perm
        (plain ++ (flagPair dir ++ dirs.flatMap flagPair) ++ leftOver alone) := by
      simp only [← List.append_assoc]
      exact (List.perm_append_comm.append_right _).append_right _
    exact (ih.append_left (flagPair dir)).trans hmove
  | plain _ _ ih => exact ih.cons _

/-! ### The rules of the program -/

theorem suffixHandler_standard (token : String) :
    suffixHandler Rules.standard.suffixes token =
      if hasSuffix ".java.topl" token then some .monitorSource
      else if hasSuffix ".topl" token then some .propertySpec else none := by
  change ((List.find? (fun rule : String × Handler => hasSuffix rule.1 token)
    [(".java.topl", .monitorSource), (".topl", .propertySpec)]).map (·.2)) = _
  rw [List.find?_cons, List.find?_cons]
  cases hasSuffix ".java.topl" token <;> cases hasSuffix ".topl" token <;> rfl

theorem flagRule_standard (token : String) :
    flagRule Rules.standard.flags token = if token = "-d" then some (1, .outputDir) else none := by
  change ((List.find? (fun rule : String × Int × Handler => rule.1 = token)
    [("-d", 1, .outputDir)]).map (·.2)) = _
  by_cases h : token = "-d"
  · simp [h]
  · simp [h, Ne.symm h]

/-- A monitor source ends in `.topl`, too. -/
theorem hasSuffix_of_monitorSource {token : String} (h : hasSuffix ".java.topl" token = true) :
    hasSuffix ".topl" token = true := by
  have hlong : ".java.topl".toList <:+ token.toList := List.isSuffixOf_iff_suffix.mp h
  have hshort : ".topl".toList <:+ ".java.topl".toList := ⟨".java".toList, by simp⟩
  exact List.isSuffixOf_iff_suffix.mpr (hshort.trans hlong)

theorem remaining_standard (tokens : List String) :
    remaining Rules.standard.suffixes tokens = ordinary tokens := by
  refine List.filter_congr fun token _ => ?_
  rw [suffixHandler_standard]
  cases hlong : hasSuffix ".java.topl" token with
  | true => simp [hasSuffix_of_monitorSource hlong]
  | false => cases hasSuffix ".topl" token <;> rfl

/-! ### The sweeps -/

theorem flagSweep_alone :
    flagSweep Rules.standard.flags ["-d"] = [.dropped "-d" 1 []] := by
  simp [flagSweep, flagRule_standard]

theorem flagSweep_pair (dir : String) (rest : List String) :
    flagSweep Rules.standard.flags ("-d" :: dir :: rest)
      = .flagged .outputDir "-d" [dir] :: flagSweep Rules.standard.flags rest := by
  simp [flagSweep, flagRule_standard]

theorem flagSweep_plain {token : String} (h : token ≠ "-d") (rest : List String) :
    flagSweep Rules.standard.flags (token :: rest)
      = .plain token :: flagSweep Rules.standard.flags rest := by
  simp [flagSweep, flagRule_standard, h]

/-- The second sweep finds what a reading says. -/
theorem ReadsAs.foldl_add {tokens plain dirs : List String} {alone : Bool}
    (h : ReadsAs tokens plain dirs alone) (c : Classified) :
    (flagSweep Rules.standard.flags tokens).foldl Classified.add c =
      { c with plainArgs := c.plainArgs ++ plain, outputDir := dirs.getLast?.or c.outputDir } := by
  induction h generalizing c with
  | nil => simp [flagSweep]
  | alone => simp [flagSweep_alone, Classified.add]
  | @pair dir rest plain dirs alone _ ih =>
    rw [flagSweep_pair, List.foldl_cons, ih, List.getLast?_cons]
    cases dirs.getLast? <;> rfl
  | plain hne _ ih =>
    rw [flagSweep_plain hne, List.foldl_cons, ih]
    simp [Classified.add]

/-! ### Suffixes -/

/-- What the tokens that end in `.java.topl` name, each without its last five
characters. -/
def sources (tokens : List String) : List String :=
  (tokens.filter (hasSuffix ".java.topl")).map fun token => String.ofList (token.toList.rdrop 5)

/-- The other tokens that end in `.topl`. -/
def specs (tokens : List String) : List String :=
  tokens.filter fun token => hasSuffix ".topl" token && !hasSuffix ".java.topl" token

theorem sourceName_eq (token : String) :
    Classified.sourceName token = String.ofList (token.toList.rdrop 5) := by
  rw [Classified.sourceName, ← String.length_toList]
  rfl

/-- A token that ends in `.topl` is told by what is before that. -/
theorem rdrop_append_of_hasSuffix {token : String} (h : hasSuffix ".topl" token = true) :
    String.ofList (token.toList.rdrop 5) ++ ".topl" = token := by
  obtain ⟨front, hfront⟩ := List.isSuffixOf_iff_suffix.mp h
  have hdrop : token.toList.rdrop 5 = front := by
    rw [← hfront]
    exact List.rdrop_append_length
  refine String.toList_injective ?_
  rw [hdrop, String.toList_append, String.toList_ofList, hfront]

theorem suffixSweep_cons (token : String) (rest : List String) :
    suffixSweep Rules.standard.suffixes (token :: rest) =
      ((suffixHandler Rules.standard.suffixes token).map (Dispatch.suffixed · token)).toList
        ++ suffixSweep Rules.standard.suffixes rest := by
  rw [suffixSweep, List.filterMap_cons]
  cases suffixHandler Rules.standard.suffixes token <;> rfl

/-- The first sweep takes out what ends in `.topl`. -/
theorem suffixSweep_foldl_add (tokens : List String) (c : Classified) :
    (suffixSweep Rules.standard.suffixes tokens).foldl Classified.add c =
      { c with monitorSources := c.monitorSources ++ sources tokens
               propertySpecs := c.propertySpecs ++ specs tokens } := by
  induction tokens generalizing c with
  | nil => simp [suffixSweep, sources, specs]
  | cons token rest ih =>
    rw [suffixSweep_cons, List.foldl_append, ih, suffixHandler_standard, sources, specs]
    cases hlong : hasSuffix ".java.topl" token with
    | true =>
      simp [hlong, sources, specs, Classified.add, Classified.handle, sourceName_eq]
    | false =>
      cases hshort : hasSuffix ".topl" token <;>
        simp [hlong, hshort, sources, specs, Classified.add, Classified.handle]

/-! ### Classification -/

theorem classify_eq {tokens plain dirs : List String} {alone : Bool}
    (h : ReadsAs (ordinary tokens) plain dirs alone) :
    classify tokens = ⟨plain, sources tokens, specs tokens, dirs.getLast?⟩ := by
  rw [classify, Classified.ofDispatches, dispatches, List.foldl_append, suffixSweep_foldl_add,
    remaining_standard, h.foldl_add]
  simp

/-- What is logged on the way does not change what is found. -/
theorem classifyLogged_result (tokens : List String) (h : Host) :
    (exec (classifyLogged tokens) h).1 = .ok (classify tokens) := by
  have hR : Frame fun _ _ : Host => True := Attempt.frame_any
  have hnote (site : Log.Site) (message : String) :
      Keeps (fun _ _ => True) (fun _ => False) (Run.note site .debug message) :=
    .modify fun _ => trivial
  have hnever : Keeps (fun _ _ => True) (fun _ => False) (classifyLogged tokens) := by
    refine Keeps.bind hR (Keeps.bind hR ?_ fun _ => ?_) fun ds => .pure hR _
    · exact .forIn hR _ (fun _ _ _ => (hnote _ _).bind hR fun _ => .pure hR _) _
    · exact (hnote _ _).bind hR fun _ => .pure hR _
  obtain ⟨c, h', hrun, -⟩ := hnever.exists_ok h
  obtain ⟨ds, h₁, hsweep, hpure⟩ := exec_bind_eq_ok.mp hrun
  obtain ⟨_, h₂, -, hsweep⟩ := exec_bind_eq_ok.mp hsweep
  obtain ⟨_, h₃, -, hsweep⟩ := exec_bind_eq_ok.mp hsweep
  cases hsweep
  cases hpure
  rw [hrun]
  rfl

/-- The classified arguments that belong to a list of tokens. -/
structure Sorts (tokens : List String) (c : Classified) : Prop where
  monitorSources : c.monitorSources = sources tokens
  propertySpecs : c.propertySpecs = specs tokens
  rest : ∃ dirs alone, ReadsAs (ordinary tokens) c.plainArgs dirs alone ∧
    c.outputDir = dirs.getLast?

theorem sorts_iff {tokens : List String} {c : Classified} : Sorts tokens c ↔ c = classify tokens := by
  constructor
  · rintro ⟨hsources, hspecs, dirs, alone, hreads, hdir⟩
    rw [classify_eq hreads, ← hsources, ← hspecs, ← hdir]
  · rintro rfl
    obtain ⟨plain, dirs, alone, hreads⟩ := exists_readsAs (ordinary tokens)
    rw [classify_eq hreads]
    exact ⟨rfl, rfl, dirs, alone, hreads, rfl⟩

/-- The sources are the tokens that name them, but for the suffix. -/
theorem sources_map_append (tokens : List String) :
    (sources tokens).map (· ++ ".topl") = tokens.filter (hasSuffix ".java.topl") := by
  rw [sources, List.map_map]
  refine (List.map_congr_left fun token htoken => ?_).trans (List.map_id _)
  exact rdrop_append_of_hasSuffix (hasSuffix_of_monitorSource (List.mem_filter.mp htoken).2)

/-- Every token has one of three kinds. -/
theorem perm_kinds (tokens : List String) :
    tokens.Perm ((sources tokens).map (· ++ ".topl") ++ specs tokens ++ ordinary tokens) := by
  have hspecs : specs tokens
      = (tokens.filter (hasSuffix ".topl")).filter fun token => !hasSuffix ".java.topl" token := by
    rw [List.filter_filter]
    exact List.filter_congr fun token _ => Bool.and_comm _ _
  have hsources : tokens.filter (hasSuffix ".java.topl")
      = (tokens.filter (hasSuffix ".topl")).filter (hasSuffix ".java.topl") := by
    rw [List.filter_filter]
    refine List.filter_congr fun token _ => ?_
    cases hlong : hasSuffix ".java.topl" token with
    | true => rw [hasSuffix_of_monitorSource hlong]; rfl
    | false => rfl
  rw [sources_map_append, hsources, hspecs, ordinary]
  exact (List.filter_append_perm _ tokens).symm.trans
    ((List.filter_append_perm _ _).symm.append_right _)

/-- What is added or left out with the suffix `.topl` is not seen by the compiler. -/
theorem classify_congr {tokens others : List String} (h : ordinary others = ordinary tokens) :
    (classify others).plainArgs = (classify tokens).plainArgs ∧
      (classify others).outputDir = (classify tokens).outputDir := by
  obtain ⟨plain, dirs, alone, hreads⟩ := exists_readsAs (ordinary tokens)
  rw [classify_eq hreads, classify_eq (h ▸ hreads)]
  exact ⟨rfl, rfl⟩

/-- **Classification sorts the arguments.**  It always gives an answer, which is the
only one that sorts the tokens by suffix and by reading what is left.  Every token
goes to exactly one place, the compiler gets neither a flag nor a token that ends in
`.topl`, and tokens that end so, wherever they stand, do not change what it gets. -/
theorem classify_sorts (tokens : List String) :
    (∀ h, (exec (classifyLogged tokens) h).1 = .ok (classify tokens)) ∧
      (∀ c, Sorts tokens c ↔ c = classify tokens) ∧
      (∃ dirs alone, ReadsAs (ordinary tokens) (classify tokens).plainArgs dirs alone ∧
        (classify tokens).outputDir = dirs.getLast? ∧
        tokens.Perm ((classify tokens).monitorSources.map (· ++ ".topl")
          ++ (classify tokens).propertySpecs
          ++ ((classify tokens).plainArgs ++ dirs.flatMap flagPair ++ leftOver alone))) ∧
      (∀ token ∈ (classify tokens).plainArgs, token ≠ "-d" ∧ ¬ ".topl".toList <:+ token.toList) ∧
      ∀ others, ordinary others = ordinary tokens →
        (classify others).plainArgs = (classify tokens).plainArgs ∧
          (classify others).outputDir = (classify tokens).outputDir := by
  refine ⟨classifyLogged_result tokens, fun c => sorts_iff, ?_, fun token => of_mem_plainArgs,
    fun others => classify_congr⟩
  obtain ⟨hsources, hspecs, dirs, alone, hreads, hdir⟩ := sorts_iff.mpr (rfl : classify tokens = _)
  refine ⟨dirs, alone, hreads, hdir, ?_⟩
  rw [hsources, hspecs]
  exact (perm_kinds tokens).trans (hreads.perm.append_left _)

/-- A flag may be the value of another, with a specification in between. -/
example : classify ["-d", "P.topl", "-d", "A.java", "W.java.topl", "-d"]
    = ⟨["A.java"], ["W.java"], ["P.topl"], some "-d"⟩ := by decide +kernel

end MonitoredCompile.Arguments
