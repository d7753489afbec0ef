import ClosedSum.Proofs.GeneratedNames

/-!
# Names tell their words

In a name of words joined by underscores every underscore stands between two words, and in a name of
capitalized words every capital begins one. So two names are the same just if their words are, and a
name of joined words has the words that it was joined from.
-/

namespace ClosedSum

def IsAscii (text : String) : Prop := ∀ c ∈ text.toList, c.toNat < 128

namespace Text

/-- What holds of the first 128 characters holds of all of ASCII. -/
lemma forall_ascii {P : Char → Prop} (h : ∀ n : Fin 128, P (Char.ofNat n)) {c : Char}
    (hc : c.toNat < 128) : P c := by
  have hchar := h ⟨c.toNat, hc⟩
  rwa [Char.ofNat_toNat] at hchar

def beyondAscii {α : Type} (entries : List (Nat × α)) : Bool := entries.all (128 ≤ ·.1)

lemma lt_of_beyondAscii {α : Type} {entries : List (Nat × α)} (h : beyondAscii entries = true)
    {e : Nat × α} (he : e ∈ entries) {c : Char} (hc : c.toNat < 128) : c.toNat < e.1 :=
  Nat.lt_of_lt_of_le hc (of_decide_eq_true (List.all_eq_true.mp h e he))

/-- In each table only the first run has characters of ASCII. -/
lemma uppercaseRuns_ascii : beyondAscii uppercaseRuns.tail = true := by decide +kernel

lemma lowerRuns_ascii : beyondAscii lowerRuns.tail = true := by decide +kernel

lemma lowerExpansions_ascii : beyondAscii lowerExpansions = true := by decide +kernel

lemma upperRuns_ascii : beyondAscii upperRuns.tail = true := by decide +kernel

lemma upperExpansions_ascii : beyondAscii upperExpansions = true := by decide +kernel

lemma inRun_of_lt {n lo hi step : Nat} (h : n < lo) : inRun n lo hi step = false := by
  simp [inRun, Nat.not_le.mpr h]

/-- Characters of ASCII are mapped by the first run of a table, if at all. -/
lemma mapCase_ascii {runs : List (Nat × Nat × Nat × Int)} {expansions : List (Nat × List Nat)}
    {lo hi step : Nat} {shift : Int} (hruns : beyondAscii runs = true)
    (hexpansions : beyondAscii expansions = true) {c : Char} (hc : c.toNat < 128) :
    mapCase ((lo, hi, step, shift) :: runs) expansions c =
      if inRun c.toNat lo hi step then [Char.ofNat (c.toNat + shift).toNat] else [c] := by
  have hlookup : expansions.lookup c.toNat = none := by
    refine List.lookup_eq_none_iff.mpr fun e he => ?_
    exact bne_iff_ne.mpr (Nat.ne_of_lt (lt_of_beyondAscii hexpansions he hc))
  have hrun : ∀ r ∈ runs, inRun c.toNat r.1 r.2.1 r.2.2.1 = false := fun r hr =>
    inRun_of_lt (lt_of_beyondAscii hruns hr hc)
  rw [mapCase, hlookup, List.find?_cons]
  dsimp only
  cases inRun c.toNat lo hi step with
  | true => rfl
  | false =>
    rw [List.find?_eq_none.mpr ?_]
    · rfl
    · simpa using hrun

lemma isUpper_ascii {c : Char} (hc : c.toNat < 128) : isUpper c = c.isUpper := by
  have hrun : ∀ r ∈ uppercaseRuns.tail, inRun c.toNat r.1 r.2.1 r.2.2 = false := fun r hr =>
    inRun_of_lt (lt_of_beyondAscii uppercaseRuns_ascii hr hc)
  have hfirst : isUpper c = inRun c.toNat 0x41 0x5a 1 := by
    rw [isUpper, show uppercaseRuns = (0x41, 0x5a, 1) :: uppercaseRuns.tail from rfl,
      List.any_cons, List.any_eq_false.mpr ?_, Bool.or_false]
    simpa using hrun
  rw [hfirst]
  exact forall_ascii (P := fun c => inRun c.toNat 0x41 0x5a 1 = c.isUpper) (by decide +kernel) hc

lemma toLower_ascii {c : Char} (hc : c.toNat < 128) : toLower c = [c.toLower] := by
  rw [toLower, show lowerRuns = (0x41, 0x5a, 1, 32) :: lowerRuns.tail from rfl,
    mapCase_ascii lowerRuns_ascii lowerExpansions_ascii hc]
  exact forall_ascii (P := fun c => (if inRun c.toNat 0x41 0x5a 1 then
    [Char.ofNat (c.toNat + (32 : Int)).toNat] else [c]) = [c.toLower]) (by decide +kernel) hc

lemma toUpper_ascii {c : Char} (hc : c.toNat < 128) : toUpper c = [c.toUpper] := by
  rw [toUpper, show upperRuns = (0x61, 0x7a, 1, -32) :: upperRuns.tail from rfl,
    mapCase_ascii upperRuns_ascii upperExpansions_ascii hc]
  exact forall_ascii (P := fun c => (if inRun c.toNat 0x61 0x7a 1 then
    [Char.ofNat (c.toNat + (-32 : Int)).toNat] else [c]) = [c.toUpper]) (by decide +kernel) hc

end Text

namespace Words

/-- A character that no word ends at. -/
def Within (c : Char) : Prop := c ≠ '_' ∧ c ≠ '-'

instance : DecidablePred Within := fun _ => inferInstanceAs (Decidable (_ ∧ _))

/-- A character that is the same in a word as in the fragment that the word comes from. -/
def Settled (c : Char) : Prop := c.toNat < 128 ∧ c.isUpper = false ∧ Within c

instance : DecidablePred Settled := fun _ => inferInstanceAs (Decidable (_ ∧ _))

variable {word : List Char} {afterLower : Bool} {cs : List Char} {words words' : List (List Char)}

lemma settled_toLower {c : Char} (hc : c.toNat < 128) (hin : Within c) : Settled c.toLower :=
  Text.forall_ascii (P := fun c => Within c → Settled c.toLower) (by decide +kernel) hc hin

lemma Settled.toLower_eq {c : Char} (hc : Settled c) : c.toLower = c :=
  Text.forall_ascii (P := fun c => c.isUpper = false → c.toLower = c) (by decide +kernel) hc.1
    hc.2.1

/-! ## The words of a fragment -/

/-- The words of an ASCII fragment are made of settled characters. -/
lemma settled_of_mem_splitFrom (hword : ∀ c ∈ word, Settled c) (hcs : ∀ c ∈ cs, c.toNat < 128) :
    ∀ w ∈ splitFrom word afterLower cs, ∀ c ∈ w, Settled c := by
  refine forall_mem_splitFrom (Q := fun w => ∀ c ∈ w, Settled c) (by simp) hword
    fun c hc hend w hw => List.forall_mem_append.mpr ⟨hw, ?_⟩
  rw [Text.toLower_ascii (hcs c hc)]
  simpa using settled_toLower (hcs c hc) (not_or.mp hend)

/-- No letter is lost between the words. -/
lemma flatten_splitFrom (hcs : ∀ c ∈ cs, c.toNat < 128) :
    (splitFrom word afterLower cs).flatten = word ++ (cs.filter Within).map Char.toLower := by
  induction cs generalizing word afterLower with
  | nil =>
    unfold splitFrom
    split
    · next hword => simp [List.isEmpty_iff.mp hword]
    · simp
  | cons c cs ih =>
    obtain ⟨hc, hcs⟩ := List.forall_mem_cons.mp hcs
    unfold splitFrom
    split
    · next hend =>
      have hout : ¬Within c := fun hin => hend.elim hin.1 hin.2
      split
      · next hword => simp [ih hcs, hout, List.isEmpty_iff.mp hword]
      · simp [ih hcs, hout]
    · next hend =>
      have hin : Within c := not_or.mp hend
      dsimp only
      split <;> simp [ih hcs, hin, Text.toLower_ascii hc]

/-- A word in the making takes settled characters as they are. -/
lemma splitFrom_settled (word : List Char) (afterLower : Bool) {w : List Char}
    (hw : ∀ c ∈ w, Settled c) (rest : List Char) :
    ∃ afterLower',
      splitFrom word afterLower (w ++ rest) = splitFrom (word ++ w) afterLower' rest := by
  induction w generalizing word afterLower with
  | nil => exact ⟨afterLower, by simp⟩
  | cons c w ih =>
    obtain ⟨hc, hw⟩ := List.forall_mem_cons.mp hw
    have hin : ¬(c = '_' ∨ c = '-') := not_or.mpr hc.2.2
    have hupper : Text.isUpper c = false := (Text.isUpper_ascii hc.1).trans hc.2.1
    have hlower : Text.toLower c = [c] := by
      rw [Text.toLower_ascii hc.1, hc.toLower_eq]
    obtain ⟨afterLower', h⟩ := ih (word ++ [c]) (Text.isLower c || c.isDigit) hw
    refine ⟨afterLower', ?_⟩
    rw [List.cons_append, splitFrom, if_neg hin]
    simpa [hupper, hlower] using h

/-! ## Joined words -/

/-- A text of joined words, if there are any, falls apart into these words at its underscores. -/
lemma splitOn_joined (h : Joinable words) (hne : words ≠ []) :
    (['_'].intercalate words).splitOn '_' = words :=
  List.splitOn_intercalate '_' (fun w hw => (h w hw).2) hne

lemma joined_eq_nil (h : Joinable words) : ['_'].intercalate words = [] ↔ words = [] := by
  refine ⟨fun hnil => ?_, fun hnil => by rw [hnil]; rfl⟩
  by_contra hne
  have hsplit := splitOn_joined h hne
  rw [hnil, List.splitOn_nil] at hsplit
  exact (h [] (by simp [← hsplit])).1 rfl

/-- Joined words are the same just if the words are. -/
theorem joined_inj (h : Joinable words) (h' : Joinable words') :
    ['_'].intercalate words = ['_'].intercalate words' ↔ words = words' := by
  refine ⟨fun heq => ?_, fun heq => by rw [heq]⟩
  by_cases hne : words = []
  · rw [(joined_eq_nil h).mpr hne] at heq
    rw [hne, (joined_eq_nil h').mp heq.symm]
  · have hne' : words' ≠ [] := fun hnil => by
      rw [(joined_eq_nil h').mpr hnil] at heq
      exact hne ((joined_eq_nil h).mp heq)
    rw [← splitOn_joined h hne, heq, splitOn_joined h' hne']

lemma underscore_between (h : Joinable words) {before after : List Char}
    (hjoined : ['_'].intercalate words = before ++ '_' :: after) :
    before ≠ [] ∧ after ≠ [] ∧ after.head? ≠ some '_' := by
  have hne : words ≠ [] := by
    rintro rfl
    cases before <;> cases hjoined
  have hsplit := splitOn_joined h hne
  rw [hjoined, List.splitOn_append_cons_self] at hsplit
  have hnil : [] ∉ before.splitOn '_' ++ after.splitOn '_' := fun hmem =>
    (h [] (hsplit ▸ hmem)).1 rfl
  refine ⟨?_, ?_, fun hhead => ?_⟩
  · rintro rfl
    simp at hnil
  · rintro rfl
    simp at hnil
  · obtain ⟨rest, rfl⟩ := List.head?_eq_some_iff.mp hhead
    rw [show '_' :: rest = [] ++ '_' :: rest from rfl, List.splitOn_append_cons_self] at hnil
    simp at hnil

lemma splitFrom_joined (h : Joinable words) (hsettled : ∀ w ∈ words, ∀ c ∈ w, Settled c) :
    splitFrom [] afterLower (['_'].intercalate words) = words := by
  induction words generalizing afterLower with
  | nil => simp [splitFrom]
  | cons w words ih =>
    obtain ⟨hw, hwords⟩ := List.forall_mem_cons.mp h
    obtain ⟨hc, hcs⟩ := List.forall_mem_cons.mp hsettled
    cases words with
    | nil =>
      obtain ⟨afterLower', heq⟩ := splitFrom_settled [] afterLower hc []
      rw [List.intercalate_singleton, ← List.append_nil w, heq]
      simp [splitFrom, hw.1]
    | cons w' words =>
      have hrest : splitFrom [] false (['_'].intercalate (w' :: words)) = w' :: words :=
        ih hwords hcs
      obtain ⟨afterLower', heq⟩ := splitFrom_settled [] afterLower hc
        ('_' :: ['_'].intercalate (w' :: words))
      rw [List.intercalate_cons_cons, List.append_assoc, List.singleton_append, heq]
      simp [splitFrom, hw.1, hrest]

/-! ## Capitalized words -/

/-- Words that can be told apart when they are capitalized: each begins with a letter, and there is
no capital in it. -/
def Capitalizable (words : List (List Char)) : Prop :=
  ∀ w ∈ words, (∃ c cs, w = c :: cs ∧ c.isAlpha) ∧ ∀ c ∈ w, c.toNat < 128 ∧ c.isUpper = false

lemma toLower_toUpper {c : Char} (hc : c.toNat < 128 ∧ c.isUpper = false) :
    c.toUpper.toLower = c :=
  Text.forall_ascii (P := fun c => c.isUpper = false → c.toUpper.toLower = c) (by decide +kernel)
    hc.1 hc.2

lemma toUpper_inj {c d : Char} (hc : c.toNat < 128 ∧ c.isUpper = false)
    (hd : d.toNat < 128 ∧ d.isUpper = false) (h : c.toUpper = d.toUpper) : c = d := by
  rw [← toLower_toUpper hc, h, toLower_toUpper hd]

lemma isUpper_toUpper {c : Char} (hc : c.toNat < 128) (halpha : c.isAlpha) : c.toUpper.isUpper :=
  Text.forall_ascii (P := fun c => c.isAlpha → c.toUpper.isUpper) (by decide +kernel) hc halpha

/-- A text without capitals ends where a capital stands. -/
lemma append_inj_of_capital {cs ds rest rest' : List Char} (hcs : ∀ c ∈ cs, c.isUpper = false)
    (hds : ∀ d ∈ ds, d.isUpper = false) (hrest : ∀ c ∈ rest.head?, c.isUpper)
    (hrest' : ∀ c ∈ rest'.head?, c.isUpper) (h : cs ++ rest = ds ++ rest') :
    cs = ds ∧ rest = rest' := by
  have htake : ∀ {w r : List Char}, (∀ c ∈ w, c.isUpper = false) → (∀ c ∈ r.head?, c.isUpper) →
      (w ++ r).takeWhile (!Char.isUpper ·) = w := by
    intro w r hw hr
    rw [List.takeWhile_append_of_pos (by simpa using hw)]
    cases r with
    | nil => simp
    | cons c r => simp [hr c rfl]
  have heq : cs = ds := by rw [← htake hcs hrest, h, htake hds hrest']
  exact ⟨heq, List.append_cancel_left (heq ▸ h)⟩

lemma isUpper_head_capitals (h : Capitalizable words) :
    ∀ c ∈ (words.flatMap capitalize).head?, c.isUpper := by
  cases words with
  | nil => simp
  | cons w words =>
    obtain ⟨⟨c, cs, rfl, hc⟩, hchars⟩ := h w (by simp)
    have hascii := (hchars c (by simp)).1
    simp [capitalize, Text.toUpper_ascii hascii, isUpper_toUpper hascii hc]

/-- Capitalized words are the same just if the words are. -/
theorem capitals_inj (h : Capitalizable words) (h' : Capitalizable words') :
    words.flatMap capitalize = words'.flatMap capitalize ↔ words = words' := by
  refine ⟨fun heq => ?_, fun heq => by rw [heq]⟩
  induction words generalizing words' with
  | nil =>
    cases words' with
    | nil => rfl
    | cons w words' =>
      obtain ⟨⟨c, cs, rfl, -⟩, hchars⟩ := h' w (by simp)
      simp [capitalize, Text.toUpper_ascii (hchars c (by simp)).1] at heq
  | cons w words ih =>
    obtain ⟨⟨⟨c, cs, rfl, -⟩, hchars⟩, hwords⟩ := List.forall_mem_cons.mp h
    have hc := hchars c (by simp)
    have hcs : ∀ d ∈ cs, d.isUpper = false := fun d hd => (hchars d (by simp [hd])).2
    cases words' with
    | nil => simp [capitalize, Text.toUpper_ascii hc.1] at heq
    | cons w' words' =>
      obtain ⟨⟨⟨d, ds, rfl, -⟩, hchars'⟩, hwords'⟩ := List.forall_mem_cons.mp h'
      have hd := hchars' d (by simp)
      have hds : ∀ e ∈ ds, e.isUpper = false := fun e he => (hchars' e (by simp [he])).2
      simp only [List.flatMap_cons, capitalize, Text.toUpper_ascii hc.1, Text.toUpper_ascii hd.1,
        List.cons_append, List.cons.injEq] at heq
      obtain ⟨hrest, hmore⟩ := append_inj_of_capital hcs hds (isUpper_head_capitals hwords)
        (isUpper_head_capitals hwords') heq.2
      rw [toUpper_inj hc hd heq.1, hrest, ih hwords hwords' hmore]

/-! ## Names -/

lemma settled_words {parts : List String} (h : ∀ p ∈ parts, IsAscii p) :
    ∀ w ∈ parts.flatMap split, ∀ c ∈ w, Settled c := by
  intro w hw
  obtain ⟨p, hp, hwp⟩ := List.mem_flatMap.mp hw
  exact settled_of_mem_splitFrom (by simp) (h p hp) w hwp

lemma capitalizable_words {parts : List String} (h : ∀ p ∈ parts, IsAscii p)
    (hletter : ∀ w ∈ parts.flatMap split, ∃ c ∈ w.head?, c.isAlpha) :
    Capitalizable (parts.flatMap split) := by
  refine fun w hw => ⟨?_, fun c hc => ?_⟩
  · obtain ⟨c, hc, halpha⟩ := hletter w hw
    obtain ⟨cs, rfl⟩ := List.head?_eq_some_iff.mp hc
    exact ⟨c, cs, rfl, halpha⟩
  · have hsettled := settled_words h w hw c hc
    exact ⟨hsettled.1, hsettled.2.1⟩

theorem split_snake {parts : List String} (h : ∀ p ∈ parts, IsAscii p) :
    split (snake parts) = parts.flatMap split := by
  rw [split, snake, String.toList_ofList]
  exact splitFrom_joined (joinable_words parts) (settled_words h)

/-- The words of identifiers are made of small letters and digits. -/
lemma isLower_or_isDigit_of_mem_words {parts : List String} (hascii : ∀ p ∈ parts, IsAscii p)
    (h : ∀ p ∈ parts, ∀ c ∈ p.toList, c.isAlphanum ∨ c = '_') {w : List Char}
    (hw : w ∈ parts.flatMap split) {c : Char} (hc : c ∈ w) : c.isLower ∨ c.isDigit := by
  obtain ⟨p, hp, hwp⟩ := List.mem_flatMap.mp hw
  have hflat : c ∈ (split p).flatten := List.mem_flatten.mpr ⟨w, hwp, hc⟩
  rw [split, flatten_splitFrom (hascii p hp), List.nil_append] at hflat
  obtain ⟨d, hd, rfl⟩ := List.mem_map.mp hflat
  obtain ⟨hd, hin⟩ := List.mem_filter.mp hd
  have halnum := (h p hp d hd).resolve_right (of_decide_eq_true hin).1
  exact Text.forall_ascii
    (P := fun d => d.isAlphanum = true → d.toLower.isLower ∨ d.toLower.isDigit)
    (by decide +kernel) (hascii p hp d hd) halnum

lemma snake_eq_iff (p q : List String) :
    snake p = snake q ↔ p.flatMap split = q.flatMap split := by
  rw [snake, snake, String.ofList_inj, joined_inj (joinable_words p) (joinable_words q)]

/-- Underscores in a name stand between words, one at a time. -/
lemma underscores_snake (parts : List String) :
    (snake parts).toList.head? ≠ some '_' ∧ (snake parts).toList.getLast? ≠ some '_' ∧
      ¬['_', '_'] <:+: (snake parts).toList := by
  have hbetween : ∀ before after, (snake parts).toList = before ++ '_' :: after →
      before ≠ [] ∧ after ≠ [] ∧ after.head? ≠ some '_' := fun before after heq => by
    rw [snake, String.toList_ofList] at heq
    exact underscore_between (joinable_words parts) heq
  refine ⟨head?_snake parts, fun hlast => ?_, ?_⟩
  · obtain ⟨before, heq⟩ := List.getLast?_eq_some_iff.mp hlast
    exact (hbetween before [] heq).2.1 rfl
  · rintro ⟨before, after, heq⟩
    rw [List.append_assoc] at heq
    exact (hbetween before ('_' :: after) heq.symm).2.2 rfl

/-- Names of ASCII fragments and their words. The words of a fragment are not empty, hold neither
sign that ends a word, and lose no letter. Joined names are the same just if their words are, and so
are capitalized ones whose words all begin with letters. A joined name is its own joined name. If it
is built of identifiers, its words are of small letters and digits, with single underscores between
them and nowhere else. -/
theorem names_tell_words {p q : List String} (hp : ∀ f ∈ p, IsAscii f) (hq : ∀ f ∈ q, IsAscii f) :
    (∀ f ∈ p, (∀ w ∈ split f, w ≠ [] ∧ '_' ∉ w ∧ '-' ∉ w) ∧
      (split f).flatten = (f.toList.filter fun c => c ≠ '_' ∧ c ≠ '-').map Char.toLower) ∧
    (snake p = snake q ↔ p.flatMap split = q.flatMap split) ∧
    ((∀ w ∈ p.flatMap split ++ q.flatMap split, ∃ c ∈ w.head?, c.isAlpha) →
      (camel p = camel q ↔ p.flatMap split = q.flatMap split)) ∧
    snake [snake p] = snake p ∧
    ((∀ f ∈ p, ∀ c ∈ f.toList, c.isAlphanum ∨ c = '_') →
      (∀ c ∈ (snake p).toList, c.isLower ∨ c.isDigit ∨ c = '_') ∧
      (snake p).toList.head? ≠ some '_' ∧ (snake p).toList.getLast? ≠ some '_' ∧
      ¬['_', '_'] <:+: (snake p).toList) := by
  refine ⟨fun f hf => ⟨fun w hw => ?_, ?_⟩, snake_eq_iff p q, fun hletter => ?_, ?_,
    fun hident => ⟨fun c hc => ?_, underscores_snake p⟩⟩
  · have hsettled := settled_of_mem_splitFrom (by simp) (hp f hf) w hw
    exact ⟨ne_nil_of_mem_splitFrom w hw, fun hmem => (hsettled _ hmem).2.2.1 rfl,
      fun hmem => (hsettled _ hmem).2.2.2 rfl⟩
  · exact flatten_splitFrom (hp f hf)
  · obtain ⟨hletterp, hletterq⟩ := List.forall_mem_append.mp hletter
    rw [camel, camel, String.ofList_inj,
      capitals_inj (capitalizable_words hp hletterp) (capitalizable_words hq hletterq)]
  · rw [snake_eq_iff, List.flatMap_singleton, split_snake hp]
  · rw [snake, String.toList_ofList] at hc
    obtain rfl | ⟨w, hw, hcw⟩ := mem_of_mem_joined hc
    · exact .inr (.inr rfl)
    · exact (isLower_or_isDigit_of_mem_words hp hident hw hcw).imp_right .inl

/-- Four words, spelled in two ways. -/
theorem names_tell_words_spellings :
    (∀ f ∈ ["BinaryTree", "two_node"], IsAscii f) ∧
      (∀ f ∈ ["_binary", "tree-Two", "Node"], IsAscii f) ∧
      snake ["BinaryTree", "two_node"] = snake ["_binary", "tree-Two", "Node"] ∧
      camel ["BinaryTree", "two_node"] = camel ["_binary", "tree-Two", "Node"] ∧
      ¬['_', '_'] <:+: (snake ["BinaryTree", "two_node"]).toList := by
  have hp : ∀ f ∈ ["BinaryTree", "two_node"], IsAscii f := by simp [IsAscii]
  have hq : ∀ f ∈ ["_binary", "tree-Two", "Node"], IsAscii f := by simp [IsAscii]
  have hwords : ["BinaryTree", "two_node"].flatMap split =
      ["binary".toList, "tree".toList, "two".toList, "node".toList] := by decide +kernel
  have hwords' : ["_binary", "tree-Two", "Node"].flatMap split =
      ["binary".toList, "tree".toList, "two".toList, "node".toList] := by decide +kernel
  obtain ⟨-, hsnake, hcamel, -, hident⟩ := names_tell_words hp hq
  have hsame := hwords.trans hwords'.symm
  refine ⟨hp, hq, hsnake.mpr hsame, (hcamel ?_).mpr hsame, (hident (by simp)).2.2.2⟩
  rw [hwords, hwords']
  simp

/-- A word that begins with a digit cannot be told from the end of the word before it. -/
example : camel ["node", "2"] = camel ["node2"] := by decide +kernel

end Words

end ClosedSum
