/-
MonitoredCompile/Proofs/Arguments/Sweeps.lean

The two sweeps under any rules that a caller adds.  What the first sweep takes out is a
matter of one token at a time (`Sifts`): the first suffix that fits decides.  What the second
sweep makes of the tokens that are left is a way to cut them into segments (`Cuts`): plain
tokens, flags with as many tokens as they need, and at most one flag at the end with fewer.

For every table there is exactly one such way, and the sweeps find it (`sifts_iff`,
`cuts_iff`), with suffixes that overlap or are empty, flags that stand behind other flags and
flags that need a negative number of arguments.
-/
import MonitoredCompile.Proofs.Arguments.Partition

namespace MonitoredCompile.Arguments

open Attempt (exec exec_bind exec_pure exec_bind_eq_ok Frame Keeps)

/-! ### Tables -/

/-- The first rule of a table whose key is as asked for has this value. -/
def FirstRule {β : Type} (rules : List (String × β)) (wanted : String → Prop) (value : β) : Prop :=
  ∃ before key after, rules = before ++ (key, value) :: after ∧ wanted key ∧
    ∀ rule ∈ before, ¬ wanted rule.1

section

variable {β : Type} {rules : List (String × β)} {wanted : String → Prop} (test : String → Bool)
variable (htest : ∀ key, test key = true ↔ wanted key)
include htest

theorem find?_eq_some_iff_firstRule {value : β} :
    (rules.find? fun rule => test rule.1).map (·.2) = some value
      ↔ FirstRule rules wanted value := by
  rw [Option.map_eq_some_iff]
  constructor
  · rintro ⟨⟨key, _⟩, hfind, rfl⟩
    obtain ⟨hkey, before, after, hrules, hbefore⟩ := List.find?_eq_some_iff_append.mp hfind
    refine ⟨before, key, after, hrules, (htest key).mp hkey, fun rule hrule hwanted => ?_⟩
    have hnot := hbefore rule hrule
    rw [(htest rule.1).mpr hwanted] at hnot
    cases hnot
  · rintro ⟨before, key, after, hrules, hkey, hbefore⟩
    refine ⟨(key, value), List.find?_eq_some_iff_append.mpr ?_, rfl⟩
    refine ⟨(htest key).mpr hkey, before, after, hrules, fun rule hrule => ?_⟩
    have hnot : ¬ test rule.1 = true := fun h => hbefore rule hrule ((htest rule.1).mp h)
    simpa using hnot

theorem find?_eq_none_iff_forall :
    (rules.find? fun rule => test rule.1).map (·.2) = none ↔ ∀ rule ∈ rules, ¬ wanted rule.1 := by
  rw [Option.map_eq_none_iff, List.find?_eq_none]
  exact forall₂_congr fun rule _ => not_congr (htest rule.1)

end

theorem hasSuffix_iff {suffix token : String} :
    hasSuffix suffix token = true ↔ suffix.toList <:+ token.toList :=
  List.isSuffixOf_iff_suffix

theorem suffixHandler_eq_some_iff {suffixes : List (String × Handler)} {token : String}
    {handler : Handler} : suffixHandler suffixes token = some handler
      ↔ FirstRule suffixes (fun suffix => suffix.toList <:+ token.toList) handler :=
  find?_eq_some_iff_firstRule (hasSuffix · token) fun _ => hasSuffix_iff

theorem suffixHandler_eq_none_iff {suffixes : List (String × Handler)} {token : String} :
    suffixHandler suffixes token = none
      ↔ ∀ rule ∈ suffixes, ¬ rule.1.toList <:+ token.toList :=
  find?_eq_none_iff_forall (hasSuffix · token) fun _ => hasSuffix_iff

theorem flagRule_eq_some_iff {flags : List (String × Int × Handler)} {flag : String}
    {rule : Int × Handler} :
    flagRule flags flag = some rule ↔ FirstRule flags (· = flag) rule :=
  find?_eq_some_iff_firstRule (fun name => decide (name = flag)) fun _ => decide_eq_true_iff

theorem flagRule_eq_none_iff {flags : List (String × Int × Handler)} {flag : String} :
    flagRule flags flag = none ↔ ∀ rule ∈ flags, rule.1 ≠ flag :=
  find?_eq_none_iff_forall (fun name => decide (name = flag)) fun _ => decide_eq_true_iff

/-! ### Dispatches -/

namespace Dispatch

/-- The tokens that a dispatch consumes. -/
def tokens : Dispatch → List String
  | .suffixed _ token => [token]
  | .plain token => [token]
  | .flagged _ flag args => flag :: args
  | .dropped flag _ args => flag :: args

/-- The handler that a dispatch calls, and what with. -/
def call? : Dispatch → Option (Handler × List String)
  | .suffixed handler token => some (handler, [token])
  | .plain _ => none
  | .flagged handler flag args => some (handler, flag :: args)
  | .dropped _ _ _ => none

end Dispatch

/-! ### The first sweep -/

/-- Token by token: what ends in a suffix of the table is taken out for the handler of the
first one that it ends in, and the rest is left. -/
inductive Sifts (suffixes : List (String × Handler)) :
    List String → List Dispatch → List String → Prop
  | nil : Sifts suffixes [] [] []
  | taken {token handler tokens taken left} :
      FirstRule suffixes (fun suffix => suffix.toList <:+ token.toList) handler →
      Sifts suffixes tokens taken left →
      Sifts suffixes (token :: tokens) (.suffixed handler token :: taken) left
  | left {token tokens taken left} : (∀ rule ∈ suffixes, ¬ rule.1.toList <:+ token.toList) →
      Sifts suffixes tokens taken left → Sifts suffixes (token :: tokens) taken (token :: left)

theorem sifts_sweep (suffixes : List (String × Handler)) (tokens : List String) :
    Sifts suffixes tokens (suffixSweep suffixes tokens) (remaining suffixes tokens) := by
  induction tokens with
  | nil => exact .nil
  | cons token rest ih =>
    rw [suffixSweep, remaining, List.filterMap_cons, List.filter_cons]
    cases hhandler : suffixHandler suffixes token with
    | some handler => exact .taken (suffixHandler_eq_some_iff.mp hhandler) ih
    | none => exact .left (suffixHandler_eq_none_iff.mp hhandler) ih

theorem Sifts.eq {suffixes : List (String × Handler)} {tokens left : List String}
    {taken : List Dispatch} (h : Sifts suffixes tokens taken left) :
    taken = suffixSweep suffixes tokens ∧ left = remaining suffixes tokens := by
  induction h with
  | nil => exact ⟨rfl, rfl⟩
  | taken hfirst _ ih =>
    obtain ⟨htaken, hleft⟩ := ih
    have hhandler := suffixHandler_eq_some_iff.mpr hfirst
    simp [suffixSweep, remaining, hhandler, htaken, hleft]
  | left hnone _ ih =>
    obtain ⟨htaken, hleft⟩ := ih
    have hhandler := suffixHandler_eq_none_iff.mpr hnone
    simp [suffixSweep, remaining, hhandler, htaken, hleft]

/-- The first sweep is the one way to sift the tokens. -/
theorem sifts_iff {suffixes : List (String × Handler)} {tokens left : List String}
    {taken : List Dispatch} : Sifts suffixes tokens taken left
      ↔ taken = suffixSweep suffixes tokens ∧ left = remaining suffixes tokens := by
  constructor
  · exact Sifts.eq
  · rintro ⟨rfl, rfl⟩
    exact sifts_sweep suffixes tokens

/-- Every token is taken out or left. -/
theorem Sifts.perm {suffixes : List (String × Handler)} {tokens left : List String}
    {taken : List Dispatch} (h : Sifts suffixes tokens taken left) :
    tokens.Perm (taken.flatMap Dispatch.tokens ++ left) := by
  induction h with
  | nil => exact .refl _
  | taken _ _ ih => exact ih.cons _
  | left _ _ ih => exact (ih.cons _).trans List.perm_middle.symm

/-! ### The second sweep -/

/-- Segments: tokens that are no flags, flags with as many tokens as the table says, which
is none if it says less than none, and at the end perhaps a flag with fewer. -/
inductive Cuts (flags : List (String × Int × Handler)) : List Dispatch → Prop
  | nil : Cuts flags []
  | plain {token segments} : (∀ rule ∈ flags, rule.1 ≠ token) → Cuts flags segments →
      Cuts flags (.plain token :: segments)
  | call {flag arity handler args segments} : FirstRule flags (· = flag) (arity, handler) →
      (args.length : Int) = max arity 0 → Cuts flags segments →
      Cuts flags (.flagged handler flag args :: segments)
  | starved {flag arity handler args} : FirstRule flags (· = flag) (arity, handler) →
      (args.length : Int) < arity → Cuts flags [.dropped flag arity args]

theorem cuts_flagSweep (flags : List (String × Int × Handler)) (tokens : List String) :
    Cuts flags (flagSweep flags tokens) := by
  fun_induction flagSweep flags tokens with
  | case1 => exact .nil
  | case2 token rest hrule ih => exact .plain (flagRule_eq_none_iff.mp hrule) ih
  | case3 token rest arity handler hrule hfew =>
    exact .starved (flagRule_eq_some_iff.mp hrule) (by omega)
  | case4 token rest arity handler hrule henough ih =>
    refine .call (flagRule_eq_some_iff.mp hrule) ?_ ih
    rw [List.length_take]
    omega

/-- The second sweep consumes all tokens in order. -/
theorem flatMap_tokens_flagSweep (flags : List (String × Int × Handler)) (tokens : List String) :
    (flagSweep flags tokens).flatMap Dispatch.tokens = tokens := by
  fun_induction flagSweep flags tokens with
  | case1 => rfl
  | case2 token rest hrule ih => rw [List.flatMap_cons, ih, Dispatch.tokens, List.singleton_append]
  | case3 token rest arity handler hrule hfew => simp [Dispatch.tokens]
  | case4 token rest arity handler hrule henough ih =>
    rw [List.flatMap_cons, ih, Dispatch.tokens, List.cons_append, List.take_append_drop]

theorem Cuts.flagSweep_eq {flags : List (String × Int × Handler)} {segments : List Dispatch}
    (h : Cuts flags segments) : flagSweep flags (segments.flatMap Dispatch.tokens) = segments := by
  induction h with
  | nil => rw [List.flatMap_nil, flagSweep]
  | @plain token segments hnone _ ih =>
    show flagSweep flags (token :: segments.flatMap Dispatch.tokens) = _
    rw [flagSweep, flagRule_eq_none_iff.mpr hnone]
    dsimp only
    rw [ih]
  | @call flag arity handler args segments hfirst hlength _ ih =>
    have harity : arity.toNat = args.length := by omega
    show flagSweep flags (flag :: (args ++ segments.flatMap Dispatch.tokens)) = _
    rw [flagSweep, flagRule_eq_some_iff.mpr hfirst]
    dsimp only
    rw [harity, if_neg (by simp), List.take_left, List.drop_left, ih]
  | @starved flag arity handler args hfirst hlength =>
    have hfew : args.length < arity.toNat := by omega
    show flagSweep flags (flag :: (args ++ [])) = _
    rw [List.append_nil, flagSweep, flagRule_eq_some_iff.mpr hfirst]
    exact if_pos hfew

/-- The second sweep is the one way to cut the tokens. -/
theorem cuts_iff {flags : List (String × Int × Handler)} {segments : List Dispatch}
    {tokens : List String} : Cuts flags segments ∧ segments.flatMap Dispatch.tokens = tokens
      ↔ segments = flagSweep flags tokens := by
  constructor
  · rintro ⟨hcuts, rfl⟩
    exact hcuts.flagSweep_eq.symm
  · rintro rfl
    exact ⟨cuts_flagSweep flags tokens, flatMap_tokens_flagSweep flags tokens⟩

/-! ### Calls -/

theorem handle_plainArgs (c : Classified) (more : List String) (handler : Handler)
    (args : List String) :
    { c with plainArgs := c.plainArgs ++ more }.handle handler args
      = { c.handle handler args with plainArgs := (c.handle handler args).plainArgs ++ more } := by
  unfold Classified.handle
  split <;> rfl

/-- A handler does not see the plain arguments, so these may as well be there before it is
called. -/
theorem foldl_add_eq (ds : List Dispatch) (c : Classified) :
    ds.foldl Classified.add c = (ds.filterMap Dispatch.call?).foldl
      (fun c call => c.handle call.1 call.2)
      { c with plainArgs := c.plainArgs ++ ds.filterMap Dispatch.plain? } := by
  induction ds generalizing c with
  | nil => simp
  | cons d rest ih =>
    rw [List.foldl_cons, ih]
    cases d with
    | suffixed handler token =>
      exact congrArg (List.foldl _ · _) (handle_plainArgs c _ handler [token]).symm
    | plain token =>
      rw [Classified.add, List.append_assoc]
      rfl
    | flagged handler flag args =>
      exact congrArg (List.foldl _ · _) (handle_plainArgs c _ handler (flag :: args)).symm
    | dropped flag arity args => rfl

/-- What is reported to the caller is what its own handlers are called with. -/
theorem filterMap_report? (ds : List Dispatch) : ds.filterMap Dispatch.report?
    = ((ds.filterMap Dispatch.call?).filter (·.1 = .record)).map (·.2) := by
  induction ds with
  | nil => rfl
  | cons d rest ih =>
    rw [List.filterMap_cons, List.filterMap_cons, ih]
    cases d with
    | suffixed handler token | flagged handler flag args => cases handler <;> rfl
    | plain token | dropped flag arity args => rfl

/-! ### Both sweeps -/

/-- Sweeping never fails, and logging on the way does not change what is found. -/
theorem sweep_result (rules : Rules) (tokens : List String) (h : Host) :
    (exec (sweep rules tokens) h).1 = .ok (dispatches rules tokens) := by
  have hR : Frame fun _ _ : Host => True := ⟨fun _ => trivial, fun _ _ => trivial⟩
  have hnote (site : Log.Site) (message : String) :
      Keeps (fun _ _ => True) (fun _ => False) (Run.note site .debug message) :=
    .modify fun _ => trivial
  have hloop : Keeps (fun _ _ => True) (fun _ => False) (sweep rules tokens) := by
    refine Keeps.bind hR ?_ fun _ => (hnote _ _).bind hR fun _ => .pure hR _
    exact .forIn hR _ (fun _ _ _ => (hnote _ _).bind hR fun _ => .pure hR _) _
  obtain ⟨ds, h', hrun, -⟩ := hloop.exists_ok h
  obtain ⟨_, h₁, -, hrest⟩ := exec_bind_eq_ok.mp hrun
  obtain ⟨_, h₂, -, hpure⟩ := exec_bind_eq_ok.mp hrest
  cases hpure
  rw [hrun]

/-- The rules of a caller whose own handlers only record what they are called with.  Its
suffixes come before those of the program, and its flags replace `-d` if that is one of
them. -/
def Rules.recording (suffixes : List String) (flags : List (String × Int)) : Rules :=
  .extended (suffixes.map fun suffix => (suffix, .record))
    (flags.map fun flag => (flag.1, flag.2, .record))

/-- **The sweeps partition the arguments.**  Whatever suffixes and flags are added, there is
one way to take tokens out by the first suffix that fits and to cut the others into plain
tokens, flags with all that they need and at most one flag that ends the list with less.  The
sweeps always end and find this way.  They consume each token once, call the handlers for
suffixes before those for flags, each in the order of the tokens, and call none for the flag at the
end; the plain arguments are the plain tokens in order, and nothing else is done. -/
theorem sweep_partitions (suffixes : List String) (flags : List (String × Int))
    (tokens : List String) :
    ∃ taken segments,
      (∀ h, (exec (sweep (.recording suffixes flags) tokens) h).1 = .ok (taken ++ segments)) ∧
      (∀ taken' segments',
        Sifts (Rules.recording suffixes flags).suffixes tokens taken'
            (segments'.flatMap Dispatch.tokens) ∧
          Cuts (Rules.recording suffixes flags).flags segments'
        ↔ taken' = taken ∧ segments' = segments) ∧
      tokens.Perm (taken.flatMap Dispatch.tokens ++ segments.flatMap Dispatch.tokens) ∧
      (Classified.ofDispatches (taken ++ segments)).plainArgs
        = segments.filterMap Dispatch.plain? ∧
      Classified.ofDispatches (taken ++ segments)
        = (taken.filterMap Dispatch.call? ++ segments.filterMap Dispatch.call?).foldl
          (fun c call => c.handle call.1 call.2)
          { plainArgs := segments.filterMap Dispatch.plain? } ∧
      (taken ++ segments).filterMap Dispatch.report?
        = ((taken.filterMap Dispatch.call? ++ segments.filterMap Dispatch.call?).filter
          (·.1 = .record)).map (·.2) := by
  set rules := Rules.recording suffixes flags
  have hsifts := sifts_sweep rules.suffixes tokens
  have hplain : (suffixSweep rules.suffixes tokens).filterMap Dispatch.plain? = [] := by
    rw [List.filterMap_eq_nil_iff]
    intro d hd
    obtain ⟨token, -, htoken⟩ := List.mem_filterMap.mp hd
    obtain ⟨handler, -, rfl⟩ := Option.map_eq_some_iff.mp htoken
    rfl
  refine ⟨suffixSweep rules.suffixes tokens, flagSweep rules.flags (remaining rules.suffixes tokens),
    sweep_result rules tokens, fun taken segments => ?_, ?_, ?_, ?_, ?_⟩
  · rw [sifts_iff, and_assoc, and_comm (b := Cuts _ _), cuts_iff]
  · rw [flatMap_tokens_flagSweep]
    exact hsifts.perm
  · rw [Classified.ofDispatches, plainArgs_foldl, List.filterMap_append, hplain]
    rfl
  · rw [Classified.ofDispatches, foldl_add_eq, List.filterMap_append, List.filterMap_append, hplain]
    rfl
  · rw [filterMap_report?, List.filterMap_append]

end MonitoredCompile.Arguments
