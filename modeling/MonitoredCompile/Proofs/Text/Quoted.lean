/-
MonitoredCompile/Proofs/Text/Quoted.lean

Texts without a line end.  A text that is put together is one if and only if its parts
are, and the quoted form of a text is one whatever the text holds (`unbroken_quote`).
Numbers and the messages of the system are, too.
-/
import MonitoredCompile.FileSystem.Errno
import MonitoredCompile.Text.Quoted

namespace MonitoredCompile

namespace Text

/-- The text has no line end in it. -/
def Unbroken (text : String) : Prop := '\n' ∉ text.toList

instance (text : String) : Decidable (Unbroken text) := inferInstanceAs (Decidable (¬ _))

@[simp] theorem unbroken_append {a b : String} : Unbroken (a ++ b) ↔ Unbroken a ∧ Unbroken b := by
  rw [Unbroken, String.toList_append, List.mem_append, not_or]
  rfl

theorem unbroken_ofList {s : List Char} : Unbroken (String.ofList s) ↔ '\n' ∉ s := by
  rw [Unbroken, String.toList_ofList]

theorem not_mem_glue {c : Char} {separator : List Char} (hseparator : c ∉ separator)
    {pieces : List (List Char)} : c ∉ glue separator pieces ↔ ∀ piece ∈ pieces, c ∉ piece := by
  induction pieces with
  | nil => simp [glue]
  | cons piece rest ih =>
    cases rest with
    | nil => simp [glue]
    | cons next rest =>
      rw [glue, List.mem_append, List.mem_append, not_or, not_or, and_iff_left hseparator, ih,
        List.forall_mem_cons (a := piece)]
      exact nofun

theorem unbroken_join {separator : String} (hseparator : Unbroken separator)
    {pieces : List String} :
    Unbroken (join separator pieces) ↔ ∀ piece ∈ pieces, Unbroken piece := by
  rw [join, unbroken_ofList, not_mem_glue hseparator, List.forall_mem_map]
  rfl

/-! ### Numbers -/

theorem unbroken_natToString (n : Nat) : Unbroken (toString n) := by
  intro hmem
  rw [Nat.toString_eq_ofList_toDigits, String.toList_ofList] at hmem
  exact absurd (Nat.isDigit_of_mem_toDigits (by decide) (by decide) hmem) (by decide)

theorem unbroken_intToString (n : Int) : Unbroken (toString n) := by
  cases n with
  | ofNat n => exact unbroken_natToString n
  | negSucc n => exact unbroken_append.mpr ⟨by decide, unbroken_natToString (n + 1)⟩

theorem unbroken_hex (width n : Nat) : Unbroken (Utf8.hex width n) := by
  have hdigit : ∀ d < 16, Utf8.hexDigit d ≠ '\n' := by decide
  rw [Utf8.hex, unbroken_ofList]
  intro hmem
  obtain ⟨i, -, hi⟩ := List.mem_map.mp hmem
  exact hdigit _ (Nat.mod_lt _ (by decide)) hi

/-! ### Quoted texts -/

theorem newline_not_mem_escape {quote : Char} (hquote : quote ≠ '\n') (c : Char) :
    '\n' ∉ escape quote c := by
  have hcoded (kind : Char) (hkind : kind ≠ '\n') (width : Nat) :
      '\n' ∉ '\\' :: kind :: (Utf8.hex width c.toNat).toList := by
    rw [List.mem_cons, List.mem_cons, not_or, not_or]
    exact ⟨by decide, hkind.symm, unbroken_hex width c.toNat⟩
  rw [escape]
  split
  · next h =>
    -- What a backslash stands before is the quote or another backslash.
    rcases h with rfl | rfl
    · simpa using hquote.symm
    · decide
  · split
    · decide
    · next hc =>
      split
      · decide
      · split
        · decide
        · split
          · simpa using Ne.symm hc
          · split
            · exact hcoded 'x' (by decide) 2
            · split
              · exact hcoded 'u' (by decide) 4
              · exact hcoded 'U' (by decide) 8

/-- **A quoted text is on one line.** -/
theorem unbroken_quote (s : String) : Unbroken (quote s) := by
  have hquote : quoteFor s.toList ≠ '\n' := by
    rw [quoteFor]
    split <;> decide
  rw [quote, unbroken_ofList, quoteChars, List.mem_cons, List.mem_append, List.mem_singleton]
  rintro (h | h | h)
  · exact hquote h.symm
  · obtain ⟨c, -, hescape⟩ := List.mem_flatMap.mp h
    exact newline_not_mem_escape hquote c hescape
  · exact hquote h.symm

end Text

/-! ### Messages -/

open Text (Unbroken unbroken_append unbroken_natToString)

theorem Errno.unbroken_message (e : Errno) : Unbroken e.message := by
  cases e <;> decide +kernel

theorem Utf8.Fault.unbroken_message (fault : Fault) : Unbroken fault.message := by
  have hreason : Unbroken fault.reason.text := by
    cases fault.reason <;> decide
  rw [message]
  split
  · simp only [unbroken_append, unbroken_natToString, Text.unbroken_hex, hreason, and_true]
    decide
  · simp only [unbroken_append, unbroken_natToString, hreason, and_true]
    decide

end MonitoredCompile
