import ClosedSum.NameTable
import Mathlib.Algebra.Ring.Nat
import Mathlib.Data.Finset.Card

/-!
# A name table numbers texts for good

The numbers and the texts of a table are each other's inverse, whatever was interned, and a table
only grows. So texts and their numbers stand for each other throughout a run, and equal numbers mean
equal texts.
-/

namespace ClosedSum.NameTable

variable {t t' earlier : NameTable} {s : String} {n : Nat} {known : Finset String}

/-- The table after texts were interned one after the other. -/
def internAll (t : NameTable) (texts : List String) : NameTable :=
  texts.foldl (fun t s => (t.intern s).2) t

def numberOf (t : NameTable) (s : String) : Nat := (t.find? s).getD 0

/-- Every number that was found is still found. -/
def Grows (t t' : NameTable) : Prop := ∀ s n, t.find? s = some n → t'.find? s = some n

/-- Numbers and texts belong together, and the texts are the known ones. -/
structure Holds (t : NameTable) (known : Finset String) : Prop where
  find?_iff : ∀ s n, t.find? s = some n ↔ t.texts[n]? = some s
  known_iff : ∀ s, s ∈ known ↔ ∃ n, t.find? s = some n

/-- A table in which the known texts have their numbers, and no other number has a text. -/
structure Numbers (t : NameTable) (number : String → Nat) (known : Finset String) : Prop where
  /-- To intern a known text again gives its number and changes nothing. -/
  intern : ∀ s ∈ known, t.intern s = (number s, t)
  text : ∀ s ∈ known, t.text (number s) = s
  find? : ∀ s, t.find? s = if s ∈ known then some (number s) else none
  size : t.size = known.card
  unused : ∀ n, (∀ s ∈ known, number s ≠ n) → t.text n = ""

lemma find?_push (t : NameTable) (s x : String) :
    (t.push s).find? x = if x = s then some t.size else t.find? x := by
  rw [find?, push, List.lookup_cons, find?]
  split
  · next hx => rw [if_pos (beq_iff_eq.mp hx)]
  · next hx => rw [if_neg (beq_eq_false_iff_ne.mp hx)]

lemma texts_push (t : NameTable) (s : String) (n : Nat) :
    (t.push s).texts[n]? = if n = t.size then some s else t.texts[n]? := Array.getElem?_push

/-- All that interning a text can come to. -/
theorem tryIntern_cases (t : NameTable) (s : String) :
    (∃ n, t.find? s = some n ∧ t.tryIntern s = (.ok n, t)) ∨
      (t.find? s = none ∧ t.size < capacity ∧ t.tryIntern s = (.ok t.size, t.push s)) ∨
      (t.find? s = none ∧ capacity ≤ t.size ∧ t.tryIntern s = (.error ⟨t.size⟩, t)) := by
  cases hfind : t.find? s with
  | some n => exact .inl ⟨n, rfl, by simp [tryIntern, internSince, hfind]⟩
  | none =>
    refine .inr ?_
    by_cases hroom : t.size < capacity
    · exact .inl ⟨rfl, hroom, by simp [tryIntern, internSince, hfind, hroom]⟩
    · exact .inr ⟨rfl, Nat.le_of_not_lt hroom, by simp [tryIntern, internSince, hfind, hroom]⟩

lemma intern_of_tryIntern (h : t.tryIntern s = (.ok n, t')) : t.intern s = (n, t') := by
  simp [intern, h]

namespace Grows

lemma refl (t : NameTable) : t.Grows t := fun _ _ h => h

lemma trans {t'' : NameTable} (h : t.Grows t') (h' : t'.Grows t'') : t.Grows t'' :=
  fun s n hn => h' s n (h s n hn)

lemma push (hs : t.find? s = none) : t.Grows (t.push s) := by
  intro x n hn
  have hx : x ≠ s := by
    rintro rfl
    rw [hs] at hn
    cases hn
  rw [find?_push, if_neg hx, hn]

lemma intern (t : NameTable) (s : String) : t.Grows (t.intern s).2 := by
  obtain ⟨n, -, h⟩ | ⟨hs, -, h⟩ | ⟨-, -, h⟩ := t.tryIntern_cases s
  · rw [intern_of_tryIntern h]
    exact refl t
  · rw [intern_of_tryIntern h]
    exact push hs
  · rw [NameTable.intern, h]
    exact refl t

/-- A table grows however many texts are interned. -/
theorem internAll (t : NameTable) (texts : List String) : t.Grows (t.internAll texts) := by
  induction texts generalizing t with
  | nil => exact refl t
  | cons s texts ih => exact (intern t s).trans (ih _)

/-- Where others bring in texts between the two looks at a table, the number that comes back is the
one that a single look at the end would have given. -/
theorem internSince_eq (h : earlier.Grows t) (s : String) :
    t.internSince earlier s = t.tryIntern s := by
  cases hearlier : earlier.find? s with
  | some n =>
    have hfind := h s n hearlier
    simp [tryIntern, internSince, hearlier, hfind]
  | none => cases hfind : t.find? s <;> simp [tryIntern, internSince, hearlier, hfind]

end Grows

namespace Holds

lemma push (h : t.Holds known) (hs : t.find? s = none) : (t.push s).Holds (insert s known) := by
  refine ⟨fun x n => ?_, fun x => ?_⟩
  · rw [find?_push, texts_push]
    by_cases hx : x = s
    · subst hx
      have hnot : t.texts[n]? ≠ some x := fun hn => by
        rw [(h.find?_iff x n).mpr hn] at hs
        cases hs
      by_cases hn : n = t.size
      · simp [hn]
      · simp [hn, hnot, Ne.symm hn]
    · by_cases hn : n = t.size
      · have hnot : t.find? x ≠ some t.size := fun hfind => by
          have htext := (h.find?_iff x t.size).mp hfind
          rw [size, Array.getElem?_size] at htext
          cases htext
        simp [hx, hn, hnot, Ne.symm hx]
      · simpa [hx, hn] using h.find?_iff x n
  · rw [find?_push, Finset.mem_insert, h.known_iff]
    by_cases hx : x = s <;> simp [hx]

lemma empty : empty.Holds {""} := by
  -- A fresh table is one with nothing in it to which the empty text was added.
  have hnothing : (⟨[], #[]⟩ : NameTable).Holds ∅ := ⟨by simp [find?], by simp [find?]⟩
  exact hnothing.push rfl

lemma nodup (h : t.Holds known) : t.texts.toList.Nodup := by
  refine List.nodup_iff_getElem?_ne_getElem?.mpr fun i j hij hj heq => ?_
  simp only [Array.getElem?_toList] at heq
  have htext : t.texts[j]? = some t.texts[j] := Array.getElem?_eq_getElem (by simpa using hj)
  have hi := (h.find?_iff _ i).mpr (heq.trans htext)
  rw [(h.find?_iff _ j).mpr htext] at hi
  exact absurd (Option.some.inj hi) (Nat.ne_of_gt hij)

theorem size_eq (h : t.Holds known) : t.size = known.card := by
  have hknown : t.texts.toList.toFinset = known := by
    ext s
    simp [h.known_iff, h.find?_iff, Array.mem_iff_getElem?]
  rw [← hknown, List.toFinset_card_of_nodup h.nodup]
  rfl

/-- Where there is room for a text, it gets a number, by which it is found from then on. -/
theorem intern (h : t.Holds known) (s : String) (hroom : (insert s known).card ≤ capacity) :
    ∃ n < capacity, (t.tryIntern s).1 = .ok n ∧ (t.intern s).1 = n ∧
      (t.intern s).2.find? s = some n ∧ (t.intern s).2.Holds (insert s known) := by
  have hsize : t.size ≤ capacity :=
    h.size_eq ▸ (Finset.card_le_card (Finset.subset_insert s known)).trans hroom
  obtain ⟨n, hn, hintern⟩ | ⟨hs, hlt, hintern⟩ | ⟨hs, hfull, -⟩ := t.tryIntern_cases s
  · have htext := (Array.getElem?_eq_some_iff.mp ((h.find?_iff s n).mp hn)).1
    have hmem : s ∈ known := (h.known_iff s).mpr ⟨n, hn⟩
    rw [intern_of_tryIntern hintern, hintern, Finset.insert_eq_of_mem hmem]
    exact ⟨n, Nat.lt_of_lt_of_le htext hsize, rfl, rfl, hn, h⟩
  · rw [intern_of_tryIntern hintern, hintern]
    exact ⟨t.size, hlt, rfl, rfl, by rw [find?_push, if_pos rfl], h.push hs⟩
  · -- a new text makes one more than the table holds
    have hnew : s ∉ known := fun hmem => by
      obtain ⟨n, hn⟩ := (h.known_iff s).mp hmem
      rw [hs] at hn
      cases hn
    rw [Finset.card_insert_of_notMem hnew, ← h.size_eq] at hroom
    exact absurd hfull (Nat.not_le.mpr hroom)

/-- Whatever texts are interned, as long as there is room for all. -/
theorem internAll (h : t.Holds known) (texts : List String)
    (hroom : (known ∪ texts.toFinset).card ≤ capacity) :
    (t.internAll texts).Holds (known ∪ texts.toFinset) := by
  induction texts generalizing t known with
  | nil => simpa [NameTable.internAll] using h
  | cons s texts ih =>
    have hunion : known ∪ (s :: texts).toFinset = insert s known ∪ texts.toFinset := by
      ext x
      simp
    rw [hunion] at hroom ⊢
    obtain ⟨-, -, -, -, -, hnext⟩ := h.intern s
      ((Finset.card_le_card Finset.subset_union_left).trans hroom)
    exact ih hnext hroom

theorem numbers (h : t.Holds known) (hgrows : t.Grows t') :
    t.Numbers t'.numberOf known := by
  have hfind : ∀ s ∈ known, t.find? s = some (t'.numberOf s) := fun s hs => by
    obtain ⟨n, hn⟩ := (h.known_iff s).mp hs
    simp [numberOf, hn, hgrows s n hn]
  refine ⟨fun s hs => ?_, fun s hs => ?_, fun s => ?_, h.size_eq, fun n hn => ?_⟩
  · exact intern_of_tryIntern (by simp [tryIntern, internSince, hfind s hs])
  · simp [text, (h.find?_iff s _).mp (hfind s hs)]
  · split
    · next hs => exact hfind s hs
    · next hs =>
      exact Option.eq_none_iff_forall_ne_some.mpr fun n hn => hs ((h.known_iff s).mpr ⟨n, hn⟩)
  · cases htext : t.texts[n]? with
    | none => simp [text, htext]
    | some s =>
      have hs := (h.find?_iff s n).mpr htext
      have hmem : s ∈ known := (h.known_iff s).mpr ⟨n, hs⟩
      rw [hfind s hmem] at hs
      exact absurd (Option.some.inj hs) (hn s hmem)

end Holds

lemma internAll_append (t : NameTable) (before later : List String) :
    t.internAll (before ++ later) = (t.internAll before).internAll later := List.foldl_append

/-- The texts that a fresh table has seen once some texts were interned. -/
def seen (texts : List String) : Finset String := {""} ∪ texts.toFinset

lemma seen_subset (before later : List String) : seen before ⊆ seen (before ++ later) := by
  intro s hs
  simp only [seen, Finset.mem_union, List.mem_toFinset, List.mem_append] at hs ⊢
  exact hs.imp_right .inl

/-- The texts of a run and their numbers stand for each other, one number for each text. At every
moment of the run, the texts that came so far have their numbers and are all that the table holds,
and the next text is given its number, for which there is room. -/
theorem growing_bijection (texts : List String) (few : texts.toFinset.card < 2 ^ 32) :
    ∃ number : String → Nat,
      (∀ s ∈ seen texts, number s < 2 ^ 32) ∧
      (∀ s ∈ seen texts, ∀ s' ∈ seen texts, number s = number s' ↔ s = s') ∧
      ∀ before later, texts = before ++ later →
        (empty.internAll before).Numbers number (seen before) ∧
        ∀ s rest, later = s :: rest →
          ((empty.internAll before).tryIntern s).1 = .ok (number s) ∧
          (empty.internAll before).intern s = (number s, empty.internAll (before ++ [s])) := by
  have hroom : (seen texts).card ≤ capacity := by
    have hcard := Finset.card_union_le {""} texts.toFinset
    rw [Finset.card_singleton] at hcard
    have hcapacity : capacity = 2 ^ 32 := rfl
    rw [seen]
    omega
  have hholds : ∀ before later, texts = before ++ later →
      (empty.internAll before).Holds (seen before) := fun before later htexts =>
    Holds.empty.internAll before
      ((Finset.card_le_card (htexts ▸ seen_subset before later)).trans hroom)
  have hgrows : ∀ before later, texts = before ++ later →
      (empty.internAll before).Grows (empty.internAll texts) := fun before later htexts => by
    rw [htexts, internAll_append]
    exact Grows.internAll _ later
  have hend := hholds texts [] (List.append_nil texts).symm
  have hnumbers := hend.numbers (Grows.refl _)
  refine ⟨(empty.internAll texts).numberOf, fun s hs => ?_, fun s hs s' hs' => ?_,
    fun before later htexts => ⟨(hholds before later htexts).numbers (hgrows before later htexts),
      fun s rest hlater => ?_⟩⟩
  · have hfind := hnumbers.find? s
    rw [if_pos hs, hend.find?_iff] at hfind
    have hlt : _ < (empty.internAll texts).size := (Array.getElem?_eq_some_iff.mp hfind).1
    exact Nat.lt_of_lt_of_le hlt (hend.size_eq ▸ hroom)
  · refine ⟨fun hsame => ?_, fun hsame => by rw [hsame]⟩
    rw [← hnumbers.text s hs, ← hnumbers.text s' hs', hsame]
  · have hnext : texts = (before ++ [s]) ++ rest := by rw [htexts, hlater, List.append_assoc]; rfl
    have hmore : insert s (seen before) ⊆ seen texts := by
      rw [hnext]
      refine Finset.insert_subset (by simp [seen]) ?_
      exact (seen_subset before [s]).trans (seen_subset _ rest)
    obtain ⟨n, -, htry, hintern, hfind, -⟩ := (hholds before later htexts).intern s
      ((Finset.card_le_card hmore).trans hroom)
    have hafter : ((empty.internAll before).intern s).2 = empty.internAll (before ++ [s]) :=
      (internAll_append empty before [s]).symm
    have hnumber := hgrows (before ++ [s]) rest hnext s n (hafter ▸ hfind)
    rw [numberOf, hnumber]
    exact ⟨htry, Prod.ext hintern hafter⟩

/-- Two texts that come twice, and one that never does. -/
theorem growing_bijection_repeated :
    ["node", "leaf", "node", ""].toFinset.card < 2 ^ 32 ∧
      let t := empty.internAll ["node", "leaf", "node", ""]
      t.size = 3 ∧ (∃ n, t.intern "leaf" = (n, t) ∧ t.text n = "leaf") ∧ t.find? "tree" = none := by
  have few : ["node", "leaf", "node", ""].toFinset.card < 2 ^ 32 := by decide
  obtain ⟨number, -, -, hmoments⟩ := growing_bijection ["node", "leaf", "node", ""] few
  obtain ⟨h, -⟩ := hmoments _ [] (List.append_nil _).symm
  have hleaf : "leaf" ∈ seen ["node", "leaf", "node", ""] := by decide
  refine ⟨few, h.size.trans (by decide), ⟨number "leaf", h.intern _ hleaf, h.text _ hleaf⟩, ?_⟩
  exact (h.find? "tree").trans (if_neg (by decide))

end ClosedSum.NameTable
