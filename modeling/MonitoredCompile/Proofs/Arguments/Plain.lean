/-
MonitoredCompile/Proofs/Arguments/Plain.lean

What is left for the compiler.  A plain argument has come through both sweeps, so
it is no flag and has none of the suffixes that the sweeps know.
-/
import MonitoredCompile.Arguments.Classify

namespace MonitoredCompile.Arguments

/-! ### Plain dispatches -/

/-- The token of a dispatch that is plain. -/
def Dispatch.plain? : Dispatch → Option String
  | .plain token => some token
  | _ => none

theorem plainArgs_handle (c : Classified) (handler : Handler) (args : List String) :
    (c.handle handler args).plainArgs = c.plainArgs := by
  unfold Classified.handle
  split <;> rfl

theorem plainArgs_add (c : Classified) (d : Dispatch) :
    (c.add d).plainArgs = c.plainArgs ++ d.plain?.toList := by
  cases d with
  | plain token => rfl
  | suffixed handler token | flagged handler flag args =>
    rw [Classified.add, plainArgs_handle]
    exact (List.append_nil _).symm
  | dropped flag arity args => exact (List.append_nil _).symm

/-- The plain arguments are the tokens of the plain dispatches, in order. -/
theorem plainArgs_foldl (ds : List Dispatch) (c : Classified) :
    (ds.foldl Classified.add c).plainArgs = c.plainArgs ++ ds.filterMap Dispatch.plain? := by
  induction ds generalizing c with
  | nil => exact (List.append_nil _).symm
  | cons d rest ih =>
    rw [List.foldl_cons, ih, plainArgs_add, List.append_assoc, List.filterMap_cons]
    cases d.plain? <;> rfl

/-! ### The sweeps -/

/-- What the second sweep calls plain is one of the tokens and no flag. -/
theorem of_plain_mem_flagSweep {flags : List (String × Int × Handler)} {tokens : List String}
    {token : String} (h : .plain token ∈ flagSweep flags tokens) :
    token ∈ tokens ∧ flagRule flags token = none := by
  fun_induction flagSweep flags tokens with
  | case1 => cases h
  | case2 first rest hrule ih =>
    rcases List.mem_cons.mp h with h | h
    · cases h
      exact ⟨List.mem_cons_self, hrule⟩
    · exact (ih h).imp_left (List.mem_cons_of_mem _)
  | case3 first rest arity handler hrule hfew =>
    cases List.mem_singleton.mp h
  | case4 first rest arity handler hrule henough ih =>
    rcases List.mem_cons.mp h with h | h
    · cases h
    · exact (ih h).imp_left fun hm => List.mem_cons_of_mem _ (List.mem_of_mem_drop hm)

/-- The first sweep leaves no token with a suffix that it knows. -/
theorem hasSuffix_of_mem_remaining {suffixes : List (String × Handler)} {tokens : List String}
    {token : String} (h : token ∈ remaining suffixes tokens) {suffix : String} {handler : Handler}
    (hsuffix : (suffix, handler) ∈ suffixes) : hasSuffix suffix token = false := by
  have hnone := (List.mem_filter.mp h).2
  rw [suffixHandler, Option.isNone_map, Option.isNone_iff_eq_none, List.find?_eq_none] at hnone
  exact Bool.eq_false_iff.mpr (hnone _ hsuffix)

/-- A plain argument is not `-d` and does not end in `.topl`. -/
theorem of_mem_plainArgs {tokens : List String} {token : String}
    (h : token ∈ (classify tokens).plainArgs) :
    token ≠ "-d" ∧ ¬ ".topl".toList <:+ token.toList := by
  rw [classify, Classified.ofDispatches, plainArgs_foldl] at h
  obtain ⟨d, hd, hplain⟩ := List.mem_filterMap.mp h
  cases d with
  | suffixed handler token | flagged handler flag args | dropped flag arity args => cases hplain
  | plain _ =>
    cases hplain
    rcases List.mem_append.mp hd with hd | hd
    · obtain ⟨t, -, ht⟩ := List.mem_filterMap.mp hd
      obtain ⟨handler, -, hhandler⟩ := Option.map_eq_some_iff.mp ht
      cases hhandler
    · obtain ⟨hremaining, hrule⟩ := of_plain_mem_flagSweep hd
      refine ⟨?_, ?_⟩
      · rintro rfl
        cases hrule
      · have hspec : hasSuffix specSuffix token = false :=
          hasSuffix_of_mem_remaining hremaining (List.mem_cons_of_mem _ List.mem_cons_self)
        exact fun hsuffix => Bool.eq_false_iff.mp hspec (List.isSuffixOf_iff_suffix.mpr hsuffix)

end MonitoredCompile.Arguments
