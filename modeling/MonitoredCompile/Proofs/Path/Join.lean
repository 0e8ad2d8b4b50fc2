/-
MonitoredCompile/Proofs/Path/Join.lean

The path of a name in a directory.  Its names are those of the directory and then
the name itself (`names_join`), and its parent is the directory again, written
with fewer slashes at the end (`splitParent_join`).
-/
import MonitoredCompile.Path
import MonitoredCompile.Proofs.Text.Lines

namespace MonitoredCompile

namespace Path

/-! ### Names -/

theorem names_append_slash (a b : String) : names (a ++ "/" ++ b) = names a ++ names b := by
  unfold names
  rw [String.toList_append, String.toList_append, List.append_assoc,
    show "/".toList ++ b.toList = '/' :: b.toList from rfl, Text.cut_append, List.filter_append,
    List.map_append]

theorem names_empty : names "" = [] := rfl

theorem names_piece {name : String} (h : IsPiece name) : names name = [name] := by
  unfold names
  have hne : name.toList ≠ [] := fun hnil => h.1 (String.toList_eq_nil_iff.mp hnil)
  rw [Text.cut_eq_singleton h.2]
  simp [hne]

/-- A slash more at the end names nothing more. -/
theorem names_slash (a : String) : names (a ++ "/") = names a := by
  have h := names_append_slash a ""
  rwa [names_empty, List.append_nil, String.append_empty] at h

/-! ### Ends -/

theorem not_isAbsolute_piece {name : String} (h : IsPiece name) : isAbsolute name = false := by
  unfold isAbsolute
  refine decide_eq_false fun hhead => h.2 ?_
  exact List.mem_of_mem_head? hhead

theorem endsInSlash_append_piece (a : String) {name : String} (h : IsPiece name) :
    endsInSlash (a ++ name) = false := by
  unfold endsInSlash
  refine decide_eq_false fun hlast => h.2 ?_
  have hne : name.toList ≠ [] := fun hnil => h.1 (String.toList_eq_nil_iff.mp hnil)
  rw [String.toList_append, List.getLast?_append, List.getLast?_eq_some_getLast hne,
    Option.some_or, Option.some.injEq] at hlast
  exact hlast ▸ List.getLast_mem hne

/-- A path that ends in a slash, without that slash. -/
theorem eq_append_slash {dir : String} (h : endsInSlash dir = true) : ∃ a, dir = a ++ "/" := by
  obtain ⟨init, hinit⟩ := List.getLast?_eq_some_iff.mp (of_decide_eq_true h)
  refine ⟨String.ofList init, String.toList_injective ?_⟩
  rw [hinit, String.toList_append, String.toList_ofList]
  rfl

/-! ### Joining -/

theorem join_eq {dir name : String} (h : IsPiece name) :
    join dir name = if dir = "" ∨ endsInSlash dir then dir ++ name else dir ++ "/" ++ name := by
  rw [join, not_isAbsolute_piece h]
  rfl

theorem names_join {dir name : String} (h : IsPiece name) :
    names (join dir name) = names dir ++ [name] := by
  rw [join_eq h]
  split
  · next hdir =>
    rcases hdir with rfl | hslash
    · rw [String.empty_append, names_piece h, names_empty]
      rfl
    · obtain ⟨a, rfl⟩ := eq_append_slash hslash
      rw [names_append_slash, names_slash, names_piece h]
  · rw [names_append_slash, names_piece h]

theorem endsInSlash_join {dir name : String} (h : IsPiece name) :
    endsInSlash (join dir name) = false := by
  rw [join_eq h]
  split <;> exact endsInSlash_append_piece _ h

theorem isAbsolute_append {a : String} (h : a ≠ "") (b : String) :
    isAbsolute (a ++ b) = isAbsolute a := by
  unfold isAbsolute
  have hne : a.toList ≠ [] := fun hnil => h (String.toList_eq_nil_iff.mp hnil)
  rw [String.toList_append, List.head?_append, List.head?_eq_some_head hne, Option.some_or]

theorem isAbsolute_join {dir name : String} (h : IsPiece name) :
    isAbsolute (join dir name) = isAbsolute dir := by
  rw [join_eq h]
  by_cases hdir : dir = ""
  · subst hdir
    rw [if_pos (.inl rfl), String.empty_append, not_isAbsolute_piece h]
    rfl
  · split
    · exact isAbsolute_append hdir _
    · rw [String.append_assoc]
      exact isAbsolute_append hdir _

theorem hasNul_append (a b : String) : hasNul (a ++ b) = (hasNul a || hasNul b) := by
  simp [hasNul]

theorem hasNul_slashes {slashes : List Char} (h : ∀ c ∈ slashes, c = '/') :
    hasNul (String.ofList slashes) = false := by
  rw [hasNul, String.toList_ofList]
  exact decide_eq_false fun hmem => absurd (h _ hmem) (by decide)

/-! ### Parents -/

/-- The slashes dropped at the end can be put back. -/
theorem eq_dropSlashes_append (s : List Char) :
    ∃ slashes, (∀ c ∈ slashes, c = '/') ∧ s = dropSlashes s ++ slashes := by
  refine ⟨(s.reverse.takeWhile (· = '/')).reverse, fun c hc => ?_, ?_⟩
  · have hall := List.all_takeWhile (l := s.reverse) (p := fun c => decide (c = '/'))
    exact of_decide_eq_true (List.all_eq_true.mp hall c (List.mem_reverse.mp hc))
  · rw [dropSlashes, ← List.reverse_append, List.takeWhile_append_dropWhile, List.reverse_reverse]

theorem split_of_slash {head name : List Char} (hhead : head.getLast? = some '/')
    (hname : '/' ∉ name) :
    split (String.ofList (head ++ name)) =
      (String.ofList (if head.all (· = '/') then head else dropSlashes head), String.ofList name) := by
  obtain ⟨init, rfl⟩ := List.getLast?_eq_some_iff.mp hhead
  have hall : ∀ c ∈ name.reverse, (decide (c ≠ '/')) = true := fun c hc =>
    decide_eq_true fun heq => hname (heq ▸ List.mem_reverse.mp hc)
  unfold split
  simp only [String.toList_ofList, List.reverse_append, List.reverse_singleton,
    List.takeWhile_append_of_pos hall, List.dropWhile_append_of_pos hall]
  simp

theorem dropSlashes_slash (s : List Char) : dropSlashes (s ++ ['/']) = dropSlashes s := by
  simp [dropSlashes]

theorem dropSlashes_eq_self {s : List Char} (h : s.getLast? ≠ some '/') : dropSlashes s = s := by
  rcases List.eq_nil_or_concat s with rfl | ⟨init, last, rfl⟩
  · rfl
  · rw [List.concat_eq_append] at h ⊢
    have hlast : last ≠ '/' := by simpa using h
    simp [dropSlashes, hlast]

theorem splitParent_of_split {path parent name : String} (h : split path = (parent, name))
    (hname : name ≠ "") : splitParent path = (parent, name) := by
  rw [splitParent, h, if_neg hname]

/-- The parent of a name in a directory is the directory, but for slashes at its
end. -/
theorem splitParent_join {dir name : String} (hdir : dir ≠ "") (h : IsPiece name) :
    ∃ parent slashes, splitParent (join dir name) = (parent, name) ∧ parent ≠ "" ∧
      (∀ c ∈ slashes, c = '/') ∧ dir = parent ++ String.ofList slashes := by
  have hne : dir.toList ≠ [] := fun hnil => hdir (String.toList_eq_nil_iff.mp hnil)
  by_cases hslash : endsInSlash dir = true
  · have hsplit := split_of_slash (of_decide_eq_true hslash) h.2
    rw [String.ofList_append, String.ofList_toList, String.ofList_toList] at hsplit
    rw [join_eq h, if_pos (.inr hslash)]
    by_cases hall : (dir.toList.all fun c => decide (c = '/')) = true
    · rw [if_pos hall, String.ofList_toList] at hsplit
      refine ⟨dir, [], splitParent_of_split hsplit h.1, hdir, by simp, ?_⟩
      exact (String.append_empty).symm
    · rw [if_neg hall] at hsplit
      obtain ⟨slashes, hslashes, hwhole⟩ := eq_dropSlashes_append dir.toList
      refine ⟨_, slashes, splitParent_of_split hsplit h.1, fun hempty => hall ?_, hslashes, ?_⟩
      · have hnil : dropSlashes dir.toList = [] := by simpa using congrArg String.toList hempty
        rw [hwhole, hnil, List.nil_append, List.all_eq_true]
        exact fun c hc => decide_eq_true (hslashes c hc)
      · rw [← String.ofList_append, ← hwhole, String.ofList_toList]
  · have hlast : dir.toList.getLast? ≠ some '/' := fun hlast => hslash (decide_eq_true hlast)
    have hall : ¬ ((dir.toList ++ ['/']).all fun c => decide (c = '/')) = true := by
      intro hall
      refine hlast ?_
      rw [List.getLast?_eq_some_getLast hne]
      have hmem := List.mem_append_left ['/'] (List.getLast_mem hne)
      exact congrArg some (of_decide_eq_true (List.all_eq_true.mp hall _ hmem))
    have hsplit := split_of_slash
      (show (dir.toList ++ ['/']).getLast? = some '/' by simp) h.2
    rw [if_neg hall, dropSlashes_slash, dropSlashes_eq_self hlast, String.ofList_append,
      String.ofList_append, String.ofList_toList, String.ofList_toList] at hsplit
    rw [join_eq h, if_neg (not_or.mpr ⟨hdir, hslash⟩)]
    refine ⟨dir, [], splitParent_of_split hsplit h.1, hdir, by simp, ?_⟩
    exact (String.append_empty).symm

/-! ### Names of a split path -/

theorem names_append_slashes (a : String) {slashes : List Char} (h : ∀ c ∈ slashes, c = '/') :
    names (a ++ String.ofList slashes) = names a := by
  induction slashes generalizing a with
  | nil => rw [String.ofList_nil, String.append_empty]
  | cons c rest ih =>
    obtain ⟨rfl, hrest⟩ := List.forall_mem_cons.mp h
    have hcons : String.ofList ('/' :: rest) = "/" ++ String.ofList rest := by
      rw [← List.singleton_append, String.ofList_append]
    rw [hcons, ← String.append_assoc, ih _ hrest, names_slash]

theorem names_split (path : String) : names path = names (split path).1 ++ names (split path).2 := by
  unfold split
  generalize hhead : (path.toList.reverse.dropWhile (· ≠ '/')).reverse = head
  generalize htail : (path.toList.reverse.takeWhile (· ≠ '/')).reverse = tail
  have hpath : path = String.ofList (head ++ tail) := by
    rw [← hhead, ← htail, ← List.reverse_append, List.takeWhile_append_dropWhile,
      List.reverse_reverse, String.ofList_toList]
  have hnames : names path = names (String.ofList head) ++ names (String.ofList tail) := by
    rcases List.eq_nil_or_concat head with hnil | ⟨init, last, hconcat⟩
    · rw [hpath, hnil, List.nil_append, String.ofList_nil, names_empty, List.nil_append]
    · rw [List.concat_eq_append] at hconcat
      have hlast : last = '/' := by
        have hrev := congrArg List.reverse (hhead.trans hconcat)
        rw [List.reverse_reverse, List.reverse_append, List.reverse_singleton] at hrev
        have hnot := List.head?_dropWhile_not (· ≠ '/') path.toList.reverse
        rw [hrev] at hnot
        simpa using hnot
      subst hlast
      rw [hpath, hconcat, List.append_assoc, String.ofList_append, String.ofList_append,
        String.ofList_append, ← String.append_assoc]
      show names (String.ofList init ++ "/" ++ String.ofList tail)
        = names (String.ofList init ++ "/") ++ names (String.ofList tail)
      rw [names_append_slash, names_slash]
  rw [hnames]
  congr 1
  show names (String.ofList head)
    = names (String.ofList (if head.all (· = '/') then head else dropSlashes head))
  split
  · rfl
  · obtain ⟨slashes, hslashes, hwhole⟩ := eq_dropSlashes_append head
    conv => lhs; rw [hwhole, String.ofList_append, names_append_slashes _ hslashes]

/-- A path is split at slashes, and no other character is lost. -/
theorem eq_split (path : String) : ∃ slashes, (∀ c ∈ slashes, c = '/') ∧
    path = (split path).1 ++ String.ofList slashes ++ (split path).2 := by
  unfold split
  generalize hhead : (path.toList.reverse.dropWhile (· ≠ '/')).reverse = head
  generalize htail : (path.toList.reverse.takeWhile (· ≠ '/')).reverse = tail
  have hpath : path = String.ofList head ++ String.ofList tail := by
    rw [← hhead, ← htail, ← String.ofList_append, ← List.reverse_append,
      List.takeWhile_append_dropWhile, List.reverse_reverse, String.ofList_toList]
  dsimp only
  split
  · exact ⟨[], by simp, by rw [String.ofList_nil, String.append_empty, ← hpath]⟩
  · obtain ⟨slashes, hslashes, hwhole⟩ := eq_dropSlashes_append head
    exact ⟨slashes, hslashes, by rw [← String.ofList_append, ← hwhole, ← hpath]⟩

theorem isPiece_split {path : String} (h : (split path).2 ≠ "") : IsPiece (split path).2 := by
  refine ⟨h, fun hslash => ?_⟩
  have hall := List.all_takeWhile (l := path.toList.reverse) (p := (· ≠ '/'))
  rw [split, String.toList_ofList, List.mem_reverse] at hslash
  simpa using List.all_eq_true.mp hall _ hslash

/-- After the name that a path is split at there may be slashes, too. -/
theorem eq_splitParent (path : String) : ∃ slashes more, (∀ c ∈ slashes, c = '/') ∧
    (∀ c ∈ more, c = '/') ∧ path = (splitParent path).1 ++ String.ofList slashes
      ++ (splitParent path).2 ++ String.ofList more := by
  obtain ⟨slashes, hslashes, hpath⟩ := eq_split path
  rw [splitParent]
  split
  · next hempty =>
    obtain ⟨before, hbefore, hfirst⟩ := eq_split (split path).1
    rw [hempty, String.append_empty] at hpath
    exact ⟨before, slashes, hbefore, hslashes, by rw [← hfirst, ← hpath]⟩
  · exact ⟨slashes, [], hslashes, by simp, by rw [String.ofList_nil, String.append_empty, ← hpath]⟩

theorem isPiece_splitParent {path : String} (h : (splitParent path).2 ≠ "") :
    IsPiece (splitParent path).2 := by
  unfold splitParent at h ⊢
  split at h
  · next hempty =>
    rw [if_pos hempty]
    exact isPiece_split h
  · next hname =>
    rw [if_neg hname]
    exact isPiece_split hname

theorem names_splitParent (path : String) :
    names path = names (splitParent path).1 ++ names (splitParent path).2 := by
  rw [splitParent]
  split
  · next hempty =>
    rw [names_split path, hempty, names_empty, List.append_nil, ← names_split]
  · exact names_split path

/-- The name that a path is split at is its last name. -/
theorem names_of_splitParent {path : String} (h : (splitParent path).2 ≠ "") :
    ∃ init, names path = init ++ [(splitParent path).2] :=
  ⟨_, by rw [names_splitParent, names_piece (isPiece_splitParent h)]⟩

/-- A path whose last name is no dot is not split at one. -/
theorem splitParent_ne_here {path last : String} {init : List String}
    (hnames : names path = init ++ [last]) (hne : last ≠ ".") : (splitParent path).2 ≠ "." := by
  intro hdot
  obtain ⟨init', hnames'⟩ := names_of_splitParent
    (show (splitParent path).2 ≠ "" by rw [hdot]; decide)
  rw [hnames, hdot] at hnames'
  exact hne (List.singleton_inj.mp (List.append_inj' hnames' rfl).2)

end Path

end MonitoredCompile
