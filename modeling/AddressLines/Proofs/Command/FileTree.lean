import AddressLines.Command.FileTree
import Mathlib.Tactic.SplitIfs

/-!
# Writing and reading files

What is written at a path is what is read there afterwards, and all else in the tree stays as it was. A path is followed
through directories only, and what it leads to is not a directory; so writing there changes nothing on the way, and the
path leads to the same names afterwards.
-/

namespace AddressLines.Command.FileTree

variable {t : FileTree} {names other place : List String} {content : ByteArray} {path : String} {node : Node}

/-- The path leads to a file, or to a name that is free. -/
def IsWritable (t : FileTree) (path : String) : Prop :=
  ∃ names, t.resolve path = .ok names ∧ (t.node? names = none ∨ ∃ content, t.node? names = some (.file content))

/-! ## One node -/

theorem lookup_filter_ne (h : other ≠ names) (nodes : List (List String × Node)) :
    (nodes.filter (·.1 != names)).lookup other = nodes.lookup other := by
  induction nodes with
  | nil => rfl
  | cons entry nodes ih =>
    obtain ⟨key, node⟩ := entry
    by_cases hkey : key = names
    · subst hkey
      rw [List.filter_cons_of_neg (by simp), ih, List.lookup_cons, beq_false_of_ne h]
    · rw [List.filter_cons_of_pos (by simpa using hkey), List.lookup_cons, List.lookup_cons, ih]

/-- A file is put in the place of anything but the null device. -/
theorem put_eq (h : t.node? names ≠ some .sink) :
    t.put names content = { t with nodes := (names, .file content) :: t.nodes.filter (·.1 != names) } := by
  rw [put]
  split
  · rename_i hsink
    exact absurd hsink h
  · rfl

theorem node?_put_self (h : t.node? names ≠ some .sink) :
    (t.put names content).node? names = some (.file content) := by
  simp [put_eq h, node?]

theorem node?_put_of_ne (hne : other ≠ names) (h : t.node? other = some node) :
    (t.put names content).node? other = some node := by
  by_cases hsink : t.node? names = some .sink
  · rw [put, hsink]
    exact h
  · rw [put_eq hsink]
    have hlookup : ((names, Node.file content) :: t.nodes.filter (·.1 != names)).lookup other = t.nodes.lookup other := by
      rw [List.lookup_cons, beq_false_of_ne hne, lookup_filter_ne hne]
    simp only [node?, hlookup] at h ⊢
    split at h
    · exact h
    · -- a directory that is there because something lies in it: either the new file or what was left
      split_ifs at h with hdirectory
      rw [if_pos, h]
      simp only [Bool.or_eq_true, List.any_eq_true, Prod.exists] at hdirectory ⊢
      refine hdirectory.imp_right ?_
      rintro ⟨key, found, hmem, hprefix⟩
      by_cases hkey : key = names
      · exact ⟨names, .file content, by simp, hkey ▸ hprefix⟩
      · exact ⟨key, found, by simp [hmem, hkey], hprefix⟩

/-! ## Paths -/

/-- What a path leads to is not a directory. -/
theorem node?_of_follow {pieces : List String} (h : t.follow place pieces = .ok names) :
    t.node? names ≠ some .directory := by
  fun_induction follow t place pieces with
  | case5 place name _ _ hnot =>
    obtain rfl := Except.ok.inj h
    exact hnot
  | case7 place name more _ _ _ ih => exact ih h
  | case8 place more _ _ _ ih => exact ih h
  | case10 place name more _ _ _ _ _ _ ih => exact ih h
  | _ => cases h

/-- A path leads to the same names in a tree that has the same directories on the way. -/
theorem follow_congr {u : FileTree} {pieces : List String}
    (hdirectories : ∀ other, t.node? other = some .directory → u.node? other = some .directory)
    (hlast : u.node? names ≠ some .directory) (h : t.follow place pieces = .ok names) :
    u.follow place pieces = .ok names := by
  fun_induction follow t place pieces with
  | case5 place name hname hlong _ =>
    obtain rfl := Except.ok.inj h
    rw [follow, if_neg hname, if_neg hlong]
    split
    · rename_i hdirectory
      exact absurd hdirectory hlast
    · rfl
  | case7 place name more hmore hblank hname ih =>
    rw [follow, if_neg hblank, if_pos hname]
    · exact ih h
    · exact hmore
  | case8 place more hmore hblank hname ih =>
    rw [follow, if_neg hblank, if_neg hname, if_pos rfl]
    · exact ih h
    · exact hmore
  | case10 place name more hmore hblank hname hup hlong hdirectory ih =>
    rw [follow, if_neg hblank, if_neg hname, if_neg hup, if_neg hlong, hdirectories _ hdirectory]
    · exact ih h
    · exact hmore
  | _ => cases h

theorem node?_of_resolve (h : t.resolve path = .ok names) : t.node? names ≠ some .directory := by
  rw [resolve] at h
  split_ifs at h <;> exact node?_of_follow h

/-- A path leads to the same names after a file is put there. -/
theorem resolve_put (hsink : t.node? names ≠ some .sink) (h : t.resolve path = .ok names) :
    (t.put names content).resolve path = .ok names := by
  have hnames := node?_of_resolve h
  have hdirectories : ∀ other, t.node? other = some .directory →
      (t.put names content).node? other = some .directory := by
    intro other hother
    refine node?_put_of_ne ?_ hother
    rintro rfl
    exact hnames hother
  have hlast : (t.put names content).node? names ≠ some .directory := by simp [node?_put_self hsink]
  have hworking : (t.put names content).working = t.working := by rw [put_eq hsink]
  rw [resolve] at h ⊢
  rw [hworking]
  split_ifs at h ⊢
  · exact follow_congr hdirectories hlast h
  · exact follow_congr hdirectories hlast h

/-- Writing at a path that takes a file puts the content there and leaves every other node. -/
theorem IsWritable.write (h : t.IsWritable path) (content : String) :
    ∃ after, t.write path content = .ok after ∧ after.read? path = some content.toUTF8 ∧
      ∀ names node, t.resolve path ≠ .ok names → t.node? names = some node → after.node? names = some node := by
  obtain ⟨names, hresolve, hnode⟩ := h
  have hsink : t.node? names ≠ some .sink := by
    rcases hnode with hnone | ⟨found, hfile⟩
    · simp [hnone]
    · simp [hfile]
  refine ⟨t.put names content.toUTF8, by rw [FileTree.write, hresolve]; rfl, ?_, ?_⟩
  · rw [read?, resolve_put hsink hresolve]
    simp only [node?_put_self hsink]
  · intro other node hother hfound
    refine node?_put_of_ne ?_ hfound
    rintro rfl
    exact hother hresolve

end AddressLines.Command.FileTree
