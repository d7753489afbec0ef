import ClosedSum.Proofs.Definition

/-!
# Generated names do not clash

No name in a source text holds a percent sign, and neither does a name that is built from the words
of such names. Every name drawn from the counter holds one, so it is never the name of an accessor.
The names drawn for wildcards begin like no accessor at all.
-/

namespace ClosedSum

/-- A text as it stands in a source, without a percent sign. -/
def NoPercent (text : String) : Prop := '%' ∉ text.toList

lemma percent_mem_freshName (stem : String) (n : Nat) : '%' ∈ (freshName stem n).toList := by
  have hsign : '%' ∈ ("%" : String).toList := by decide
  simp only [freshName, toString, String.toList_append, List.mem_append]
  exact .inl (.inr hsign)

namespace Text

/-- No run and no expansion of a case mapping comes down to the signs before the small letters. -/
lemma lowerRuns_above : lowerRuns.all (fun r => 96 < (r.1 : Int) + r.2.2.2) = true := by
  decide +kernel

lemma lowerExpansions_above : lowerExpansions.all (fun e => e.2.all (96 < ·)) = true := by decide

lemma upperRuns_above : upperRuns.all (fun r => 64 < (r.1 : Int) + r.2.2.2) = true := by
  decide +kernel

lemma upperExpansions_above : upperExpansions.all (fun e => e.2.all (64 < ·)) = true := by
  decide +kernel

lemma ofNat_ne_of_above {bound n : Nat} {x : Char} (hn : bound < n) (hx : x.toNat ≤ bound)
    (h0 : x ≠ '\x00') : Char.ofNat n ≠ x := by
  rintro rfl
  by_cases hvalid : n.isValidChar
  · rw [Char.ofNat, dif_pos hvalid] at hx
    exact absurd hn (Nat.not_lt.mpr hx)
  · rw [Char.ofNat, dif_neg hvalid] at h0
    exact h0 rfl

/-- A case mapping that stays above a bound gives a sign below it for no other character. -/
lemma not_mem_mapCase {runs : List (Nat × Nat × Nat × Int)} {expansions : List (Nat × List Nat)}
    {bound : Nat} (hruns : runs.all (fun r => (bound : Int) < (r.1 : Int) + r.2.2.2) = true)
    (hexpansions : expansions.all (fun e => e.2.all (bound < ·)) = true) {c x : Char}
    (hx : x.toNat ≤ bound) (h0 : x ≠ '\x00') (hc : c ≠ x) : x ∉ mapCase runs expansions c := by
  unfold mapCase
  split
  · next image hexp =>
    obtain ⟨l, r, hl, -⟩ := List.lookup_eq_some_iff.mp hexp
    have habove := List.all_eq_true.mp hexpansions (c.toNat, image) (by rw [hl]; simp)
    rw [List.all_eq_true] at habove
    intro hmem
    obtain ⟨n, hn, heq⟩ := List.mem_map.mp hmem
    exact ofNat_ne_of_above (by simpa using habove n hn) hx h0 heq
  · split
    · next lo hi step shift hrun =>
      have habove := List.all_eq_true.mp hruns _ (List.mem_of_find?_eq_some hrun)
      have hin : inRun c.toNat lo hi step = true := by simpa using List.find?_some hrun
      have hlo : lo ≤ c.toNat := by
        simp only [inRun, Bool.and_eq_true, decide_eq_true_eq] at hin
        exact hin.1.1
      have hshift : (bound : Int) < (lo : Int) + shift := by simpa using habove
      have hsmall : bound < (c.toNat + shift).toNat := by omega
      simpa using Ne.symm (ofNat_ne_of_above hsmall hx h0)
    · simpa using Ne.symm hc

lemma not_mem_toLower {c x : Char} (hx : x.toNat ≤ 96) (h0 : x ≠ '\x00') (hc : c ≠ x) :
    x ∉ toLower c :=
  not_mem_mapCase lowerRuns_above lowerExpansions_above hx h0 hc

lemma not_mem_toUpper {c x : Char} (hx : x.toNat ≤ 64) (h0 : x ≠ '\x00') (hc : c ≠ x) :
    x ∉ toUpper c :=
  not_mem_mapCase upperRuns_above upperExpansions_above hx h0 hc

end Text

namespace Words

/-- What holds of no characters at all, and still holds when the small letters of another character
of the fragment come behind, holds of all words. -/
lemma forall_mem_splitFrom {Q : List Char → Prop} (hnil : Q []) {word : List Char}
    {afterLower : Bool} {cs : List Char} (hword : Q word)
    (hgrow : ∀ c ∈ cs, ¬(c = '_' ∨ c = '-') → ∀ w, Q w → Q (w ++ Text.toLower c)) :
    ∀ w ∈ splitFrom word afterLower cs, Q w := by
  induction cs generalizing word afterLower with
  | nil =>
    unfold splitFrom
    split <;> simp [hword]
  | cons c cs ih =>
    obtain ⟨hc, hcs⟩ := List.forall_mem_cons.mp hgrow
    unfold splitFrom
    split
    · split
      · exact ih hnil hcs
      · exact List.forall_mem_cons.mpr ⟨hword, ih hnil hcs⟩
    · next hend =>
      dsimp only
      split
      · exact List.forall_mem_cons.mpr ⟨hword, ih (hc hend [] hnil) hcs⟩
      · exact ih (hc hend word hword) hcs

lemma not_mem_splitFrom {x : Char} (hx : x.toNat ≤ 96) (h0 : x ≠ '\x00') {word : List Char}
    {afterLower : Bool} {cs : List Char} (hword : x ∉ word) (hcs : x ∈ cs → x = '_') :
    ∀ w ∈ splitFrom word afterLower cs, x ∉ w := by
  refine forall_mem_splitFrom (Q := (x ∉ ·)) (by simp) hword fun c hc hend w hw => ?_
  have hne : c ≠ x := by
    rintro rfl
    exact hend (.inl (hcs hc))
  simp [hw, Text.not_mem_toLower hx h0 hne]

lemma ne_nil_of_mem_splitFrom {word : List Char} {afterLower : Bool} {cs : List Char} :
    ∀ w ∈ splitFrom word afterLower cs, w ≠ [] := by
  induction cs generalizing word afterLower with
  | nil =>
    unfold splitFrom
    split
    · simp
    · next hword => simpa using hword
  | cons c cs ih =>
    unfold splitFrom
    split
    · split
      · exact ih
      · next hword => exact List.forall_mem_cons.mpr ⟨by simpa using hword, ih⟩
    · dsimp only
      split
      · next hupper =>
        have hword : word ≠ [] := by
          simp only [Bool.and_eq_true, Bool.not_eq_true'] at hupper
          simpa using hupper.2
        exact List.forall_mem_cons.mpr ⟨hword, ih⟩
      · exact ih

/-- Words that can be joined by underscores: there are characters in each, but no underscore. -/
def Joinable (words : List (List Char)) : Prop := ∀ w ∈ words, w ≠ [] ∧ '_' ∉ w

lemma joinable_words (parts : List String) : Joinable (parts.flatMap split) := by
  intro w hw
  obtain ⟨p, -, hwp⟩ := List.mem_flatMap.mp hw
  exact ⟨ne_nil_of_mem_splitFrom w hwp,
    not_mem_splitFrom (by decide) (by decide) (by simp) (fun _ => rfl) w hwp⟩

/-- Joined words begin with the first character of a word. -/
lemma head?_snake (parts : List String) : (snake parts).toList.head? ≠ some '_' := by
  have hwords := joinable_words parts
  rw [snake, String.toList_ofList]
  cases hparts : parts.flatMap split with
  | nil => simp
  | cons w ws =>
    obtain ⟨hne, hsign⟩ := hwords w (by simp [hparts])
    obtain ⟨c, cs, rfl⟩ := List.exists_cons_of_ne_nil hne
    have hc : c ≠ '_' := fun h => hsign (by simp [h])
    cases ws <;> simpa [List.intercalate_cons_cons] using hc

lemma percent_not_mem_words {parts : List String} (h : ∀ p ∈ parts, NoPercent p) :
    ∀ w ∈ parts.flatMap split, '%' ∉ w := by
  intro w hw
  obtain ⟨p, hp, hwp⟩ := List.mem_flatMap.mp hw
  exact not_mem_splitFrom (by decide) (by decide) (by simp) (fun hp' => absurd hp' (h p hp)) w hwp

lemma mem_of_mem_joined {x : Char} {words : List (List Char)}
    (hx : x ∈ ['_'].intercalate words) : x = '_' ∨ ∃ w ∈ words, x ∈ w := by
  induction words with
  | nil => simp at hx
  | cons w words ih =>
    cases words with
    | nil =>
      rw [List.intercalate_singleton] at hx
      exact .inr ⟨w, by simp, hx⟩
    | cons w' words =>
      rw [List.intercalate_cons_cons, List.mem_append, List.mem_append, List.mem_singleton] at hx
      rcases hx with (hx | hx) | hx
      · exact .inr ⟨w, by simp, hx⟩
      · exact .inl hx
      · exact (ih hx).imp_right fun ⟨v, hv, hxv⟩ => ⟨v, List.mem_cons_of_mem w hv, hxv⟩

lemma noPercent_snake {parts : List String} (h : ∀ p ∈ parts, NoPercent p) :
    NoPercent (snake parts) := by
  rw [NoPercent, snake, String.toList_ofList]
  intro hmem
  obtain heq | ⟨w, hw, hsign⟩ := mem_of_mem_joined hmem
  · cases heq
  · exact percent_not_mem_words h w hw hsign

lemma noPercent_camel {parts : List String} (h : ∀ p ∈ parts, NoPercent p) :
    NoPercent (camel parts) := by
  rw [NoPercent, camel, String.toList_ofList]
  intro hmem
  obtain ⟨w, hw, hcapital⟩ := List.mem_flatMap.mp hmem
  have hsign := percent_not_mem_words h w hw
  cases w with
  | nil => cases hcapital
  | cons c cs =>
    have hne : c ≠ '%' := fun heq => hsign (heq ▸ List.mem_cons_self)
    rcases List.mem_append.mp hcapital with hmem | hmem
    · exact Text.not_mem_toUpper (by decide) (by decide) hne hmem
    · exact hsign (List.mem_cons_of_mem _ hmem)

end Words

namespace Variant

/-- A definition as it stands in a source, whose names hold no percent sign. -/
structure Spec.NoPercent (s : Spec) : Prop where
  name : ClosedSum.NoPercent s.name.name
  labels : ∀ c ∈ s.cases, ClosedSum.NoPercent c.label.name
  fields : ∀ c ∈ s.cases, ∀ f ∈ c.fields, ClosedSum.NoPercent f.name.name

/-- No accessor is named like a wildcard, from whatever names it is built. -/
theorem Decls.wildcard_not_mem_accessors (s : Spec) (n : Nat) :
    freshName "_" n ∉ (ofSpec s).accessors := by
  intro hmem
  obtain ⟨c, hc, hf⟩ := List.mem_flatMap.mp hmem
  obtain ⟨cs, tag, hcs, rfl, -⟩ := exists_of_mem hc
  obtain ⟨f, hf, hname⟩ := List.mem_map.mp hf
  obtain ⟨fs, hfs, rfl⟩ := List.mem_map.mp hf
  have hhead : (freshName "_" n).toList.head? = some '_' := by
    simp [freshName, toString, String.toList_append]
  rw [← hname] at hhead
  exact Words.head?_snake _ hhead

/-- The accessors of a definition from a source hold no percent sign either. -/
theorem Decls.noPercent_accessors {s : Spec} (h : s.NoPercent) :
    ∀ f ∈ (ofSpec s).accessors, ClosedSum.NoPercent f := by
  intro accessor hmem
  obtain ⟨c, hc, haccessor⟩ := List.mem_flatMap.mp hmem
  obtain ⟨cs, tag, hcs, rfl, -⟩ := exists_of_mem hc
  obtain ⟨f, hf, rfl⟩ := List.mem_map.mp haccessor
  obtain ⟨fs, hfs, rfl⟩ := List.mem_map.mp hf
  apply Words.noPercent_snake
  simp only [List.mem_cons, List.not_mem_nil, or_false]
  rintro p (rfl | rfl | rfl)
  · exact h.name
  · exact h.labels cs hcs
  · exact h.fields cs hcs fs hfs

/-- The accessors of a definition from a source are no names drawn from the counter. -/
theorem Decls.freshName_not_mem_accessors {s : Spec} (h : s.NoPercent) (stem : String) (n : Nat) :
    freshName stem n ∉ (ofSpec s).accessors :=
  fun hmem => noPercent_accessors h _ hmem (percent_mem_freshName stem n)

end Variant

end ClosedSum
