import Mathlib.Data.List.Forall2
import Mathlib.Data.List.Flatten

/-!
# Records in what has been written

A file is written in pieces. Some of them are records, the others are what is
left of records that were not accepted. A file *carries* a list of records
when it can be cut so that these are among the pieces, in order: each of them
is there in one piece, and no two overlap.

A sequence of files carries a list of records when the list can be cut into
one part for each file. Files that have been dropped from the front account
for a first part of the list (`Kept`).
-/

variable {α : Type*}

/-- **A content carries records**: they are among the pieces it was written
in. -/
def Carries (records : List (List α)) (content : List α) : Prop :=
  ∃ pieces : List (List α), content = pieces.flatten ∧ records.Sublist pieces

namespace Carries

variable {records : List (List α)} {content : List α}

theorem nil (content : List α) : Carries [] content :=
  ⟨[content], List.flatten_singleton.symm, List.nil_sublist _⟩

/-- What is written later takes nothing away. -/
theorem append (h : Carries records content) (rest : List α) :
    Carries records (content ++ rest) := by
  obtain ⟨pieces, rfl, hsub⟩ := h
  refine ⟨pieces ++ [rest], ?_, hsub.trans (List.sublist_append_left _ _)⟩
  rw [List.flatten_append, List.flatten_singleton]

/-- A record that is written is carried. -/
theorem concat (h : Carries records content) (record : List α) :
    Carries (records ++ [record]) (content ++ record) := by
  obtain ⟨pieces, rfl, hsub⟩ := h
  refine ⟨pieces ++ [record], ?_, hsub.append (List.Sublist.refl _)⟩
  rw [List.flatten_append, List.flatten_singleton]

end Carries

/-- **Records are kept** by files, of which the first are gone. -/
def Kept (records : List (List α)) (gone files : List (List α)) : Prop :=
  ∃ lost kept : List (List (List α)), records = lost.flatten ++ kept.flatten
    ∧ List.Forall₂ Carries lost gone ∧ List.Forall₂ Carries kept files

namespace Kept

variable {records gone files : List (List α)} {x y : List α}

theorem nil (files : List (List α)) : Kept [] [] files := by
  refine ⟨[], files.map (fun _ => []), ?_, .nil, ?_⟩
  · simp
  · rw [List.forall₂_map_left_iff]
    exact List.forall₂_same.mpr (fun x _ => Carries.nil x)

theorem extend (h : Kept records gone files) (x : List α) : Kept records gone (files ++ [x]) := by
  obtain ⟨lost, kept, rfl, hlost, hkept⟩ := h
  refine ⟨lost, kept ++ [[]], ?_, hlost, ?_⟩
  · simp
  · exact List.rel_append hkept (.cons (Carries.nil x) .nil)

/-- The last file is replaced by one that carries as much, and then some. -/
theorem last (h : Kept records gone (files ++ [x])) {m : List (List α)}
    (hxy : ∀ rs, Carries rs x → Carries (rs ++ m) y) : Kept (records ++ m) gone (files ++ [y]) := by
  obtain ⟨lost, kept, rfl, hlost, hkept⟩ := h
  have hfront := List.forall₂_take_append kept files [x] hkept
  have hback := List.forall₂_drop_append kept files [x] hkept
  obtain ⟨part, rest, hpart, hrest, hdrop⟩ := List.forall₂_cons_right_iff.mp hback
  obtain rfl := List.forall₂_nil_right_iff.mp hrest
  refine ⟨lost, kept.take files.length ++ [part ++ m], ?_, hlost,
    List.rel_append hfront (.cons (hxy _ hpart) .nil)⟩
  have hsplit : kept.flatten = (kept.take files.length).flatten ++ part := by
    conv_lhs => rw [← List.take_append_drop files.length kept, hdrop]
    simp
  rw [hsplit]
  simp

theorem append (h : Kept records gone (files ++ [x])) (rest : List α) :
    Kept records gone (files ++ [x ++ rest]) := by
  have hlast := h.last (fun rs hrs => by
    rw [List.append_nil]
    exact hrs.append rest)
  rwa [List.append_nil] at hlast

theorem accept (h : Kept records gone (files ++ [x])) (record : List α) :
    Kept (records ++ [record]) gone (files ++ [x ++ record]) :=
  h.last (fun _ hrs => hrs.concat record)

/-- The first file goes, with all it carries. -/
theorem retire (h : Kept records gone (x :: files)) : Kept records (gone ++ [x]) files := by
  obtain ⟨lost, kept, rfl, hlost, hkept⟩ := h
  obtain ⟨part, rest, hpart, hrest, rfl⟩ := List.forall₂_cons_right_iff.mp hkept
  refine ⟨lost ++ [part], rest, ?_, List.rel_append hlost (.cons hpart .nil), hrest⟩
  simp

end Kept
