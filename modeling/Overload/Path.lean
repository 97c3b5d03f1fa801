import Mathlib.Data.List.Basic

namespace Overload.Path

def isAbsolute (path : List Char) : Bool := path.head? == some '/'

def join (path other : List Char) : List Char :=
  if isAbsolute other then other
  else if path = [] ∨ path.getLast? = some '/' then path ++ other
  else path ++ '/' :: other

def skipped (component : List Char) : Bool := component == [] || component == ['.']

def fileStem (name : List Char) : List Char :=
  let before := ((name.reverse.dropWhile (· ≠ '.')).drop 1).reverse
  if before = [] then name else before

/-- `PathBuf::set_extension`, for an extension that is not empty.  What follows the stem of
the last component is cut off; a path without a file name stays as it is. -/
def setExtension (path extension : List Char) : List Char :=
  match (path.splitOn '/').reverse.dropWhile skipped with
  | [] => path
  | name :: parents =>
    if name = ['.', '.'] then path
    else ['/'].intercalate (parents.reverse ++ [fileStem name ++ '.' :: extension])

variable {path other extension name : List Char}

theorem join_of_isAbsolute (h : isAbsolute other) : join path other = other := by
  rw [join, if_pos h]

theorem isAbsolute_join (h : isAbsolute path) : isAbsolute (join path other) := by
  rw [join]
  split
  · assumption
  · cases path with
    | nil => cases h
    | cons c path =>
      split
      · exact h
      · exact h

theorem fileStem_subset : fileStem name ⊆ name := by
  intro c hc
  simp only [fileStem] at hc
  split at hc
  · exact hc
  · have hdrop := (List.dropWhile_suffix _).subset (List.mem_of_mem_drop (List.mem_reverse.mp hc))
    exact List.mem_reverse.mp hdrop

theorem fileStem_ne_nil (h : name ≠ []) : fileStem name ≠ [] := by
  simp only [fileStem]
  split
  · exact h
  · assumption

theorem fileStem_append (hname : name ≠ []) (hextension : '.' ∉ extension) :
    fileStem (name ++ '.' :: extension) = name := by
  have hdrop : (name ++ '.' :: extension).reverse.dropWhile (· ≠ '.') = '.' :: name.reverse := by
    rw [List.reverse_append, List.reverse_cons, List.append_assoc,
      List.dropWhile_append_of_pos]
    · simp
    · intro c hc
      have : c ≠ '.' := fun heq => hextension (heq ▸ List.mem_reverse.mp hc)
      simpa using this
  rw [fileStem, hdrop, List.drop_one, List.tail_cons, List.reverse_reverse, if_neg hname]

theorem not_mem_of_mem_splitOn {component : List Char} (h : component ∈ path.splitOn '/') :
    '/' ∉ component := by
  induction path generalizing component with
  | nil =>
    rw [List.splitOn_nil, List.mem_singleton] at h
    simp [h]
  | cons c path ih =>
    rw [List.splitOn_cons_eq_if_modifyHead] at h
    split at h
    · rcases List.mem_cons.mp h with rfl | h
      · simp
      · exact ih h
    · rename_i hc
      obtain ⟨first, rest, hsplit⟩ := List.exists_cons_of_ne_nil (List.splitOn_ne_nil '/' path)
      rw [hsplit] at h ih
      rcases List.mem_cons.mp h with rfl | h
      · have hfirst := ih List.mem_cons_self
        simp only [beq_iff_eq] at hc
        exact fun hmem => (List.mem_cons.mp hmem).elim (fun heq => hc heq.symm) hfirst
      · exact ih (List.mem_cons_of_mem _ h)

theorem splitOn_eq {parents : List (List Char)}
    (h : (path.splitOn '/').reverse.dropWhile skipped = name :: parents) :
    skipped name = false ∧ ∃ rest, path.splitOn '/' = parents.reverse ++ name :: rest := by
  have hname := List.head?_dropWhile_not skipped (path.splitOn '/').reverse
  rw [h] at hname
  refine ⟨by simpa using hname, ((path.splitOn '/').reverse.takeWhile skipped).reverse, ?_⟩
  have hsplit := List.takeWhile_append_dropWhile (p := skipped) (l := (path.splitOn '/').reverse)
  rw [h] at hsplit
  have hreverse := congrArg List.reverse hsplit
  simpa using hreverse.symm

theorem splitOn_setExtension {parents : List (List Char)}
    (h : (path.splitOn '/').reverse.dropWhile skipped = name :: parents)
    (hextension : '/' ∉ extension) :
    (['/'].intercalate (parents.reverse ++ [fileStem name ++ '.' :: extension])).splitOn '/' =
      parents.reverse ++ [fileStem name ++ '.' :: extension] := by
  obtain ⟨-, rest, hsplit⟩ := splitOn_eq h
  have hslash : ∀ component ∈ parents.reverse ++ name :: rest, '/' ∉ component :=
    fun component hcomponent => not_mem_of_mem_splitOn (hsplit ▸ hcomponent)
  refine List.splitOn_intercalate '/' (fun component hcomponent => ?_) (by simp)
  rcases List.mem_append.mp hcomponent with hparent | hlast
  · exact hslash component (List.mem_append_left _ hparent)
  · rw [List.mem_singleton.mp hlast]
    have hname : '/' ∉ name := hslash name (by simp)
    simp only [List.mem_append, List.mem_cons, not_or]
    exact ⟨fun hmem => hname (fileStem_subset hmem), by decide, hextension⟩

theorem setExtension_setExtension (hdot : '.' ∉ extension) (hslash : '/' ∉ extension)
    (hextension : extension ≠ []) :
    setExtension (setExtension path extension) extension = setExtension path extension := by
  cases h : (path.splitOn '/').reverse.dropWhile skipped with
  | nil => simp only [setExtension, h]
  | cons name parents =>
    by_cases hname : name = ['.', '.']
    · simp only [setExtension, h, hname, if_true]
    · have hstem : fileStem name ≠ [] := by
        refine fileStem_ne_nil fun hnil => ?_
        have := (splitOn_eq h).1
        simp [hnil, skipped] at this
      -- the new name is longer than the components that have a meaning of their own
      have hlength : 3 ≤ (fileStem name ++ '.' :: extension).length := by
        have := List.length_pos_iff.mpr hstem
        have := List.length_pos_iff.mpr hextension
        simp only [List.length_append, List.length_cons]
        omega
      have hskipped : skipped (fileStem name ++ '.' :: extension) = false := by
        rw [skipped, Bool.or_eq_false_iff]
        constructor <;> refine beq_false_of_ne fun heq => ?_ <;> rw [heq] at hlength <;>
          exact absurd hlength (by decide)
      have hparent : fileStem name ++ '.' :: extension ≠ ['.', '.'] := by
        intro heq
        rw [heq] at hlength
        exact absurd hlength (by decide)
      have honce : setExtension path extension =
          ['/'].intercalate (parents.reverse ++ [fileStem name ++ '.' :: extension]) := by
        simp only [setExtension, h, if_neg hname]
      rw [honce, setExtension, splitOn_setExtension h hslash, List.reverse_append,
        List.reverse_singleton, List.singleton_append,
        List.dropWhile_cons_of_neg (by simp [hskipped])]
      simp only [if_neg hparent, List.reverse_reverse, fileStem_append hstem hdot]

theorem isAbsolute_setExtension (h : isAbsolute path) :
    isAbsolute (setExtension path extension) := by
  rw [setExtension]
  split
  · exact h
  · rename_i name parents hdrop
    split
    · exact h
    · obtain ⟨hname, rest, hsplit⟩ := splitOn_eq hdrop
      cases path with
      | nil => cases h
      | cons c path =>
        obtain rfl : c = '/' := by simpa [isAbsolute] using h
        rw [List.splitOn_cons_eq_if_modifyHead, if_pos (beq_self_eq_true _)] at hsplit
        -- the empty component before the first slash is no file name
        cases hparents : parents.reverse with
        | nil =>
          rw [hparents, List.nil_append] at hsplit
          rw [← (List.cons.inj hsplit).1] at hname
          cases hname
        | cons first others =>
          rw [hparents, List.cons_append] at hsplit
          rw [← (List.cons.inj hsplit).1]
          cases others <;> rfl

end Overload.Path
