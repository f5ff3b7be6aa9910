import ClassSelection.File.Path
import Mathlib.Data.List.TakeWhile

/-!
# Paths with another extension

A path to a file is its parent and the name of the file, which has a stem and an
extension if there is a dot behind its first character.  Putting in another
extension changes nothing but the name, and leaves the name as it is exactly if
it had this extension already (`withExtension_eq_iff`).
-/

namespace ClassSelection.Path

def IsParent (parent : List Char) : Prop :=
  parent = [] ∨ ∃ up, parent = up ++ ['/']

structure IsName (name : List Char) : Prop where
  noSlash : '/' ∉ name
  ne_nil : name ≠ []
  ne_dot : name ≠ ['.']
  ne_dots : name ≠ ['.', '.']

/-- The path leads to a name with the extension behind a stem.  A dot is no stem. -/
def HasExtension (path extension : String) : Prop :=
  ∃ parent stem, path.toList = parent ++ (stem ++ '.' :: extension.toList) ∧ IsParent parent ∧
    '/' ∉ stem ∧ stem ≠ [] ∧ stem ≠ ['.']

variable {parent name stem extension : List Char}

theorem bne_of_notMem {separator : Char} {segment : List Char} (h : separator ∉ segment) :
    ∀ c ∈ segment, (c != separator) = true := by
  intro c hc
  rw [bne_iff_ne]
  rintro rfl
  exact h hc

theorem exists_parent (path : List Char) :
    ∃ parent name, path = parent ++ name ∧ IsParent parent ∧ '/' ∉ name := by
  induction path with
  | nil => exact ⟨[], [], rfl, .inl rfl, List.not_mem_nil⟩
  | cons c path ih =>
      obtain ⟨parent, name, rfl, rfl | ⟨up, rfl⟩, hname⟩ := ih
      · by_cases hc : c = '/'
        · exact ⟨['/'], name, by rw [hc]; rfl, .inr ⟨[], rfl⟩, hname⟩
        · exact ⟨[], c :: name, rfl, .inl rfl, by simp [Ne.symm hc, hname]⟩
      · exact ⟨c :: (up ++ ['/']), name, rfl, .inr ⟨c :: up, rfl⟩, hname⟩

/-! ## Parent and name -/

theorem dropTrailing_cons {c : Char} {rest : List Char} (hslash : c ≠ '/')
    (hdot : c = '.' → rest.head? ≠ some '/') : dropTrailing (c :: rest) = c :: rest := by
  unfold dropTrailing
  split
  · simp_all
  · simp_all
  · rfl

theorem dropTrailing_reverse (hslash : '/' ∉ name) (hne : name ≠ []) (hdot : name ≠ ['.'])
    (rest : List Char) : dropTrailing (name.reverse ++ rest) = name.reverse ++ rest := by
  replace hslash : ∀ c ∈ name.reverse, c ≠ '/' := by
    rintro c hc rfl
    exact hslash (List.mem_reverse.1 hc)
  obtain ⟨last, others, hlast⟩ := List.exists_cons_of_ne_nil (List.reverse_ne_nil_iff.2 hne)
  rw [hlast] at hslash ⊢
  rw [List.cons_append]
  refine dropTrailing_cons (hslash last List.mem_cons_self) fun hlastDot => ?_
  cases others with
  | nil =>
      rw [List.reverse_eq_iff, hlastDot] at hlast
      exact absurd hlast hdot
  | cons c others => simpa using hslash c (by simp)

theorem split?_append (hparent : IsParent parent) (hslash : '/' ∉ name) (hne : name ≠ [])
    (hdot : name ≠ ['.']) :
    split? (parent ++ name) = if name = ['.', '.'] then none else some ⟨parent, name⟩ := by
  have hsegment := bne_of_notMem (mt List.mem_reverse.1 hslash)
  have htake : parent.reverse.takeWhile (· != '/') = [] := by
    rcases hparent with rfl | ⟨up, rfl⟩ <;> simp
  have hdrop : parent.reverse.dropWhile (· != '/') = parent.reverse := by
    rcases hparent with rfl | ⟨up, rfl⟩ <;> simp
  rw [split?, List.reverse_append, dropTrailing_reverse hslash hne hdot,
    List.takeWhile_append_of_pos hsegment, List.dropWhile_append_of_pos hsegment, htake, hdrop,
    List.append_nil, List.reverse_reverse, List.reverse_reverse]
  simp [hne, hdot]

theorem IsName.split?_append (hparent : IsParent parent) (hname : IsName name) :
    split? (parent ++ name) = some ⟨parent, name⟩ := by
  rw [Path.split?_append hparent hname.noSlash hname.ne_nil hname.ne_dot, if_neg hname.ne_dots]

/-! ## Stem and extension -/

theorem splitExtension_append (hstem : stem ≠ []) (hdot : '.' ∉ extension) :
    splitExtension (stem ++ '.' :: extension) = (stem, some extension) := by
  have hsegment := bne_of_notMem (mt List.mem_reverse.1 hdot)
  have hreverse :
      (stem ++ '.' :: extension).reverse = extension.reverse ++ '.' :: stem.reverse := by
    simp
  obtain ⟨last, others, hlast⟩ := List.exists_cons_of_ne_nil (List.reverse_ne_nil_iff.2 hstem)
  have hstem : stem = (last :: others).reverse := by rw [← hlast, List.reverse_reverse]
  rw [splitExtension, hreverse, List.takeWhile_append_of_pos hsegment,
    List.dropWhile_append_of_pos hsegment, hlast, hstem]
  simp

theorem splitExtension_cases (name : List Char) :
    (∃ stem extension, name = stem ++ '.' :: extension ∧ stem ≠ [] ∧ '.' ∉ extension) ∨
      splitExtension name = (name, none) := by
  by_cases hmem : '.' ∈ name.reverse
  · obtain ⟨last, start, hreverse, hdot⟩ := List.eq_append_cons_of_mem hmem
    obtain rfl : name = start.reverse ++ '.' :: last.reverse := by
      rw [← List.reverse_reverse name, hreverse]
      simp
    by_cases hstart : start = []
    · right
      rw [splitExtension, hreverse, List.dropWhile_append_of_pos (bne_of_notMem hdot), hstart]
      simp
    · exact .inl ⟨_, _, rfl, by simpa using hstart, by simpa using hdot⟩
  · right
    rw [splitExtension, List.dropWhile_eq_nil_iff.2 (bne_of_notMem hmem)]

def renamed (name extension : List Char) : List Char :=
  match splitExtension name with
  | (_, none) => name ++ '.' :: extension
  | (stem, some _) => if stem = ['.'] then ['.', '.'] else stem ++ '.' :: extension

theorem withExtension_append (hparent : IsParent parent) (hname : IsName name)
    (extension : String) :
    withExtension (String.ofList (parent ++ name)) extension =
      String.ofList (parent ++ renamed name extension.toList) := by
  rw [withExtension, renamed, String.toList_ofList, hname.split?_append hparent]
  rcases splitExtension_cases name with ⟨stem, old, rfl, hstem, hdot⟩ | hnone
  · have hold : parent ++ (stem ++ '.' :: old) = parent ++ (stem ++ ['.']) ++ old := by simp
    have hslash : '/' ∉ stem ++ ['.'] := fun h => hname.noSlash (by simp_all)
    have hsplit := split?_append hparent hslash (by simp) (by simpa using hstem)
    simp only [Option.bind_some, splitExtension_append hstem hdot, Option.getD_some]
    rw [hold, List.length_append, Nat.add_sub_cancel, List.take_left, replaceAfterStem, hsplit]
    by_cases hdots : stem = ['.']
    · simp [hdots]
    · have hne : stem ++ ['.'] ≠ ['.', '.'] := fun h => hdots (List.append_cancel_right h)
      simp [hne, hdots, splitExtension_append hstem List.not_mem_nil]
  · simp only [Option.bind_some, hnone, Option.getD_none, List.length_nil, Nat.sub_zero,
      List.take_length, replaceAfterStem, hname.split?_append hparent, List.append_assoc]

theorem noSlash_renamed (hname : '/' ∉ name) (hextension : '/' ∉ extension) :
    '/' ∉ renamed name extension := by
  rcases splitExtension_cases name with ⟨stem, old, rfl, hstem, hdot⟩ | hnone
  · rw [renamed, splitExtension_append hstem hdot]
    by_cases hdots : stem = ['.'] <;> simp_all
  · rw [renamed, hnone]
    simp_all

theorem renamed_ne_nil (name extension : List Char) : renamed name extension ≠ [] := by
  rcases splitExtension_cases name with ⟨stem, old, rfl, hstem, hdot⟩ | hnone
  · rw [renamed, splitExtension_append hstem hdot]
    by_cases hdots : stem = ['.'] <;> simp [hdots]
  · rw [renamed, hnone]
    simp

theorem renamed_eq_self_iff (hname : IsName name) (hdot : '.' ∉ extension) :
    renamed name extension = name ↔
      ∃ stem, name = stem ++ '.' :: extension ∧ stem ≠ [] ∧ stem ≠ ['.'] := by
  constructor
  · intro hsame
    rcases splitExtension_cases name with ⟨stem, old, rfl, hstem, hold⟩ | hnone
    · rw [renamed, splitExtension_append hstem hold] at hsame
      by_cases hdots : stem = ['.']
      · rw [hdots] at hsame hname
        obtain rfl : [] = old := by simpa using hsame
        exact absurd rfl hname.ne_dots
      · simp only [if_neg hdots, List.append_cancel_left_eq, List.cons.injEq, true_and] at hsame
        exact ⟨stem, by rw [hsame], hstem, hdots⟩
    · rw [renamed, hnone] at hsame
      simp at hsame
  · rintro ⟨stem, rfl, hstem, hdots⟩
    simp [renamed, splitExtension_append hstem hdot, hdots]

theorem hasExtension_append (hparent : IsParent parent) (hname : IsName name) {extension : String}
    (hslash : '/' ∉ extension.toList) :
    HasExtension (String.ofList (parent ++ name)) extension ↔
      ∃ stem, name = stem ++ '.' :: extension.toList ∧ stem ≠ [] ∧ stem ≠ ['.'] := by
  rw [HasExtension, String.toList_ofList]
  constructor
  · rintro ⟨parent', stem, hpath, hparent', hstemSlash, hstem, hdots⟩
    have hname' : IsName (stem ++ '.' :: extension.toList) := by
      refine ⟨by simp [hstemSlash, hslash], by simp,
        by simp [List.append_eq_singleton_iff, hstem], fun h => ?_⟩
      have hlength : stem.length + (extension.toList.length + 1) = 2 := by
        simpa using congrArg List.length h
      have hpos := List.length_pos_iff.2 hstem
      exact hdots (List.append_inj_left h (by simp; omega))
    have hsplit := hname'.split?_append hparent'
    rw [← hpath, hname.split?_append hparent, Option.some.injEq, Split.mk.injEq] at hsplit
    exact ⟨stem, hsplit.2, hstem, hdots⟩
  · rintro ⟨stem, rfl, hstem, hdots⟩
    have hstemSlash : '/' ∉ stem := fun h => hname.noSlash (List.mem_append_left _ h)
    exact ⟨parent, stem, rfl, hparent, hstemSlash, hstem, hdots⟩

/-- Another extension leaves a path as it is exactly if the path had it. -/
theorem withExtension_eq_iff (hparent : IsParent parent) (hname : IsName name) {extension : String}
    (hdot : '.' ∉ extension.toList) (hslash : '/' ∉ extension.toList) :
    withExtension (String.ofList (parent ++ name)) extension = String.ofList (parent ++ name) ↔
      HasExtension (String.ofList (parent ++ name)) extension := by
  rw [withExtension_append hparent hname, hasExtension_append hparent hname hslash,
    ← renamed_eq_self_iff hname hdot, String.ofList_inj, List.append_cancel_left_eq]

end ClassSelection.Path
