import Mathlib.Data.List.Basic

/-!
# Texts in markup

A document is written from pieces of markup, which stand as they are, and from
texts, which are escaped. Where an escaped text has no special character, those
of the document are the ones of its markup.
-/

namespace Markup

variable {α : Type}

inductive Piece (α : Type) where
  | markup (m : List α)
  | text (t : List α)

def writePiece (escape : List α → List α) : Piece α → List α
  | .markup m => m
  | .text t => escape t

def write (escape : List α → List α) (pieces : List (Piece α)) : List α := pieces.flatMap (writePiece escape)

def texts : List (Piece α) → List (List α)
  | [] => []
  | .markup _ :: pieces => texts pieces
  | .text t :: pieces => t :: texts pieces

/-- The markup of a document, with `none` where a text stands. -/
def skeleton (pieces : List (Piece α)) : List (Option (List α)) :=
  pieces.map fun
    | .markup m => some m
    | .text _ => none

def fill : List (Option (List α)) → List (List α) → List α
  | [], _ => []
  | some m :: places, parts => m ++ fill places parts
  | none :: places, [] => fill places []
  | none :: places, part :: parts => part ++ fill places parts

section
variable {escape : List α → List α} {pieces pieces' : List (Piece α)}

@[simp] theorem write_nil : write escape [] = [] := rfl

@[simp] theorem write_cons (piece : Piece α) :
    write escape (piece :: pieces) = writePiece escape piece ++ write escape pieces := rfl

@[simp] theorem write_append : write escape (pieces ++ pieces') = write escape pieces ++ write escape pieces' := by
  simp [write]

@[simp] theorem texts_append : texts (pieces ++ pieces') = texts pieces ++ texts pieces' := by
  induction pieces with
  | nil => rfl
  | cons piece pieces ih =>
    cases piece with
    | markup m => simpa [texts] using ih
    | text t => simpa [texts] using ih

theorem texts_flatMap {β : Type} (f : β → List (Piece α)) (l : List β) :
    texts (l.flatMap f) = l.flatMap fun b => texts (f b) := by
  induction l with
  | nil => rfl
  | cons b l ih => rw [List.flatMap_cons, texts_append, ih, List.flatMap_cons]

@[simp] theorem skeleton_append : skeleton (pieces ++ pieces') = skeleton pieces ++ skeleton pieces' := by
  simp [skeleton]

theorem skeleton_flatMap_eq {β γ : Type} {f : β → γ} {g g' : β → List (Piece α)} {l l' : List β}
    (h : l.map f = l'.map f) (hg : ∀ a b, f a = f b → skeleton (g a) = skeleton (g' b)) :
    skeleton (l.flatMap g) = skeleton (l'.flatMap g') := by
  induction l generalizing l' with
  | nil => rw [List.map_eq_nil_iff.mp h.symm]; rfl
  | cons a l ih =>
    cases l' with
    | nil => cases h
    | cons b l' =>
      injection h with hhead htail
      rw [List.flatMap_cons, List.flatMap_cons, skeleton_append, skeleton_append, hg a b hhead, ih htail]

theorem write_flatMap_nil_iff {β : Type} {f : β → List (Piece α)} (hf : ∀ b, write escape (f b) ≠ []) (l : List β) :
    write escape (l.flatMap f) = [] ↔ l = [] := by
  cases l with
  | nil => simp
  | cons b l => simp [hf b]

theorem texts_intersperse (sep : List α) (l : List (List α)) :
    texts ((l.map Piece.text).intersperse (.markup sep)) = l := by
  induction l with
  | nil => rfl
  | cons t l ih =>
    cases l with
    | nil => rfl
    | cons t' l => exact congrArg (t :: ·) ih

theorem skeleton_intersperse {sep : List α} {l l' : List (List α)} (h : l.length = l'.length) :
    skeleton ((l.map Piece.text).intersperse (.markup sep)) =
      skeleton ((l'.map Piece.text).intersperse (.markup sep)) := by
  induction l generalizing l' with
  | nil => rw [List.length_eq_zero_iff.mp h.symm]
  | cons t l ih =>
    obtain ⟨t', l', rfl⟩ := List.exists_cons_of_length_eq_add_one h.symm
    have hrest : l.length = l'.length := Nat.succ.inj h
    have ih := ih hrest
    cases l with
    | nil => rw [List.length_eq_zero_iff.mp hrest.symm]; rfl
    | cons u l =>
      obtain ⟨u', l', rfl⟩ := List.exists_cons_of_length_eq_add_one hrest.symm
      exact congrArg (none :: some sep :: ·) ih

theorem write_eq_fill : write escape pieces = fill (skeleton pieces) ((texts pieces).map escape) := by
  induction pieces with
  | nil => rfl
  | cons piece pieces ih =>
    cases piece with
    | markup m => exact congrArg (m ++ ·) ih
    | text t => exact congrArg (escape t ++ ·) ih

theorem length_texts : (texts pieces).length = ((skeleton pieces).filter (·.isNone)).length := by
  induction pieces with
  | nil => rfl
  | cons piece pieces ih =>
    cases piece with
    | markup m => exact ih
    | text t => exact congrArg (· + 1) ih

theorem filter_write {special : α → Bool} (hesc : ∀ t, (escape t).filter special = []) :
    (write escape pieces).filter special = (skeleton pieces).flatMap fun place =>
    (place.getD []).filter special := by
  induction pieces with
  | nil => rfl
  | cons piece pieces ih =>
    rw [write_cons, List.filter_append, ih]
    cases piece with
    | markup m => rfl
    | text t => rw [writePiece, hesc]; rfl

/-- Documents of one skeleton have the same special characters in the same order. -/
theorem filter_write_eq {special : α → Bool} (hesc : ∀ t, (escape t).filter special = [])
    (h : skeleton pieces = skeleton pieces') :
    (write escape pieces).filter special = (write escape pieces').filter special := by
  rw [filter_write hesc, filter_write hesc, h]

end

end Markup
