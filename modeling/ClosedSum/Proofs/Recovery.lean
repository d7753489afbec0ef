import ClosedSum.Proofs.Parsing
import ClosedSum.Proofs.SteadyParsers
import Mathlib.Algebra.BigOperators.Group.List.Defs
import Mathlib.Algebra.GroupWithZero.Nat

/-!
# Recovery from faults

After a fault, reading goes on at the next token that can begin an item, behind the token at which
the fault was found. So the next item is read whenever the fault is found before it. It is lost when
the tokens before it could still become an item: then its own first token is what is at fault.
-/

namespace ClosedSum.Grammar

open Surface
open Token (Kind)

/-- The keywords, of which every item has one. -/
def isHead : Kind → Bool
  | .keyword .variant | .keyword .fn => true
  | _ => false

/-- How many items there are in a tree. -/
def Phrase.itemCount : (p : Phrase) → p.Tree → Nat
  | .item, _ => 1
  | .module, is => is.length
  | .listOf _ p, as => (as.map p.itemCount).sum
  | _, _ => 0

lemma isHead_of_op? {l : Level} {k : Kind} {op : BinaryOp} (h : l.op? k = some op) :
    isHead k = false := by
  cases k with
  | keyword w => cases l <;> cases h
  | _ => rfl

lemma Derives.countP_isHead {p : Phrase} {ts : List Kind} {a : p.Tree} (h : Derives p ts a) :
    ts.countP isHead = p.itemCount a := by
  induction h with
  | operationsCons hl hop hb h ihb ih =>
    simp [isHead_of_op? hop, ihb, ih, Phrase.itemCount]
  | _ =>
    simp_all [-List.countP_eq_zero, Phrase.itemCount, isHead, List.countP_cons, Nat.add_comm] <;>
      exact List.sum_map_zero

/-- What can still become an item. -/
def CutShort (ks : List Kind) : Prop := ∃ us i, Derives .item (ks ++ us) i

/-- Tokens that begin as an item and hold the beginning of no other, and of which no prefix is an
item. -/
structure Broken (ks : List Kind) : Prop where
  begins : isHead (ks.headD .eof) = true
  noOther : ∀ k ∈ ks.tail, startsItem k = false
  noEnd : Kind.eof ∉ ks
  noItem : ∀ ts us i, ks = ts ++ us → ¬Derives .item ts i

def file (ks : List Kind) : List Token := (ks ++ [Kind.eof]).map (⟨·, .none⟩)

lemma exists_derives_item_iff {ks : List Kind} (hks : Kind.eof ∉ ks) :
    (∃ i, Derives .item ks i) ↔
      (parse (file ks)).faults = [] ∧ (parse (file ks)).tree.items.length = 1 := by
  have hend : (file ks).map (·.kind) = ks ++ [.eof] := by simp [file, Function.comp_def]
  constructor
  · rintro ⟨i, hi⟩
    have hmodule : Derives .module ks [i] := by
      have hcons := Derives.moduleCons hi .moduleNil
      rwa [List.append_nil] at hcons
    obtain ⟨hfaults, hitems⟩ := parse_complete hend hmodule
    exact ⟨hfaults, by rw [← List.length_map (f := Item.erase), hitems]; rfl⟩
  · rintro ⟨hfaults, hlen⟩
    have hmodule := ((parse_exact hend hks).2 hfaults _).mpr rfl
    obtain ⟨i, hi⟩ := List.length_eq_one_iff.mp hlen
    rw [Module.erase, hi] at hmodule
    cases hmodule with
    | moduleCons hd hnil =>
      cases hnil
      rw [List.append_nil]
      exact ⟨_, hd⟩

instance (ks : List Kind) : Decidable (Broken ks) :=
  decidable_of_iff ((isHead (ks.headD .eof) = true ∧ ∀ k ∈ ks.tail, startsItem k = false) ∧
    Kind.eof ∉ ks ∧ ∀ ts ∈ ks.inits,
      ¬((parse (file ts)).faults = [] ∧ (parse (file ts)).tree.items.length = 1)) <| by
    constructor
    · rintro ⟨⟨hbegins, hother⟩, hend, hitems⟩
      refine ⟨hbegins, hother, hend, fun ts us i hks hd => ?_⟩
      have hts : Kind.eof ∉ ts := fun hmem => hend (hks ▸ List.mem_append_left us hmem)
      exact hitems ts ((List.mem_inits _ _).mpr ⟨us, hks.symm⟩)
        ((exists_derives_item_iff hts).mp ⟨i, hd⟩)
    · rintro ⟨hbegins, hother, hend, hitem⟩
      refine ⟨⟨hbegins, hother⟩, hend, fun ts hts hparse => ?_⟩
      obtain ⟨us, hus⟩ := (List.mem_inits _ _).mp hts
      have hts' : Kind.eof ∉ ts := fun hmem => hend (hus ▸ List.mem_append_left us hmem)
      obtain ⟨i, hd⟩ := (exists_derives_item_iff hts').mpr hparse
      exact hitem ts us i hus.symm hd

section Skipping

variable {stop : Kind → Bool} {s : Span} {ts us : List Token}

lemma rest_dropUntil_append (h : ∀ t ∈ ts, t.kind ≠ .eof ∧ stop t.kind = false)
    (hus : ∃ u vs, us = u :: vs ∧ stop u.kind = true) :
    (Cursor.dropUntil stop s (ts ++ us)).rest = us := by
  induction ts generalizing s with
  | nil =>
    obtain ⟨u, vs, rfl, hu⟩ := hus
    rw [List.nil_append, Cursor.dropUntil, if_pos (.inr hu)]
  | cons t ts ih =>
    obtain ⟨heof, hstop⟩ := h t List.mem_cons_self
    have hgo : ¬(t.kind = .eof ∨ stop t.kind = true) := by simp [heof, hstop]
    rw [List.cons_append, Cursor.dropUntil, if_neg hgo]
    exact ih fun t' ht' => h t' (List.mem_cons_of_mem t ht')

lemma exists_append_dropUntil (stop : Kind → Bool) (s : Span) (ts : List Token) :
    ∃ us, ts = us ++ (Cursor.dropUntil stop s ts).rest ∧ Kind.eof ∉ us.map (·.kind) := by
  induction ts generalizing s with
  | nil => exact ⟨[], rfl, List.not_mem_nil⟩
  | cons t ts ih =>
    rw [Cursor.dropUntil]
    split
    · exact ⟨[], rfl, List.not_mem_nil⟩
    · next hgo =>
      obtain ⟨us, hus, heof⟩ := ih t.span
      refine ⟨t :: us, congrArg (t :: ·) hus, ?_⟩
      rw [List.map_cons, List.mem_cons, not_or]
      exact ⟨fun h => hgo (.inl h.symm), heof⟩

lemma skipUntil_eq {c : Cursor} {t : Token} (hc : c.rest = t :: ts) (ht : t.kind ≠ .eof) :
    c.skipUntil stop = Cursor.dropUntil stop t.span ts := by
  obtain ⟨rest, previous⟩ := c
  obtain rfl : rest = t :: ts := hc
  have hend : Cursor.atEnd ⟨t :: ts, previous⟩ = false := decide_eq_false ht
  simp [Cursor.skipUntil, Cursor.advance, hend, Cursor.span, Cursor.current]

end Skipping

lemma Spoken.eof_not_mem {α : Type} {p : Phrase} {ks : List Kind} {r : Except Fault α}
    (h : Spoken p.language ks r) : Kind.eof ∉ ks := by
  cases r with
  | ok a =>
    obtain ⟨b, hb⟩ := h
    exact hb.eof_not_mem
  | error f =>
    obtain ⟨us, b, hb⟩ := h
    exact fun hmem => hb.eof_not_mem (List.mem_append_left us hmem)

section Items

variable {c c' c₁ : Cursor} {r : Except Fault Item} {bound : Nat} {is : List Item}

/-- What an item comes to does not depend on the tokens before it. -/
lemma item_same (h : item bound c = (r, c₁)) (hrest : c'.rest = c.rest)
    (hbound : c.rest.length ≤ bound) (hend : Kind.eof ∈ c.kinds) :
    ∃ c₂, item bound c' = (r, c₂) ∧ c₂.rest = c₁.rest := by
  obtain ⟨rest, previous⟩ := c
  obtain ⟨rest', previous'⟩ := c'
  obtain rfl : rest' = rest := hrest
  by_cases hattr : ∃ text, Cursor.kind ⟨rest', previous⟩ = .attr text
  · obtain ⟨text, htext⟩ := hattr
    cases rest' with
    | nil => cases htext
    | cons t ts =>
      obtain ⟨k, span⟩ := t
      obtain rfl : k = .attr text := htext
      exact ⟨c₁, h, rfl⟩
  · have hitem := Steady.item (le_refl bound) (le_refl bound)
    have hk : ∀ text, Cursor.kind ⟨rest', previous⟩ ≠ .attr text := fun text htext =>
      hattr ⟨text, htext⟩
    obtain ⟨ts, hts, hspoken⟩ := hitem.speaks ⟨rest', previous⟩ hk
    rw [h] at hts hspoken
    obtain ⟨t, us, hc₁⟩ : ∃ t us, c₁.rest = t :: us := by
      refine List.exists_cons_of_ne_nil fun hnil => hspoken.eof_not_mem ?_
      have hmap : Cursor.kinds ⟨rest', previous⟩ = ts.map (·.kind) := by
        rw [Cursor.kinds, hts, hnil, List.append_nil]
      rwa [hmap] at hend
    have hts' : rest' = ts ++ t :: us := by rw [← hc₁]; exact hts
    subst hts'
    have hlen : ts.length < bound := by
      simp only [List.length_append, List.length_cons] at hbound
      omega
    have hlooks := hitem.looks ts t us us previous previous' hk hlen (le_refl _)
    rw [h] at hlooks
    obtain ⟨hsame, hrest⟩ := hlooks hc₁
    cases hitem' : item bound ⟨ts ++ t :: us, previous'⟩ with
    | mk r' c₂ =>
      rw [hitem'] at hsame hrest
      obtain rfl : r' = r := hsame
      exact ⟨c₂, rfl, hrest.trans hc₁.symm⟩

lemma items_same {rounds rounds' : Nat} (h : items rounds c = (is, [])) (hrest : c'.rest = c.rest)
    (hend : Kind.eof ∈ c.kinds) (hrounds : c.rest.length ≤ rounds)
    (hrounds' : c.rest.length ≤ rounds') : items rounds' c' = (is, []) := by
  induction rounds generalizing c c' rounds' is with
  | zero =>
    have hnil : c.rest = [] := List.length_eq_zero_iff.mp (Nat.le_zero.mp hrounds)
    rw [Cursor.kinds, hnil] at hend
    cases hend
  | succ rounds ih =>
    have hpos : 0 < c.rest.length := by
      rw [← Cursor.length_kinds]
      exact List.length_pos_of_mem hend
    obtain ⟨rounds', rfl⟩ : ∃ m, rounds' = m + 1 := ⟨rounds' - 1, by omega⟩
    have hatEnd : c'.atEnd = c.atEnd := by
      unfold Cursor.atEnd Cursor.kind Cursor.current
      rw [hrest]
    rw [items] at h ⊢
    rw [hatEnd]
    split at h
    · next hstop =>
      rw [if_pos hstop]
      exact h
    · next hgo =>
      rw [if_neg hgo]
      cases hitem : item c.rest.length c with
      | mk r c₁ =>
        obtain ⟨c₂, hitem', hc₂⟩ := item_same hitem hrest (le_refl _) hend
        rw [hrest, hitem']
        rw [hitem] at h
        cases r with
        | error f => cases h
        | ok i =>
          obtain ⟨ts, hts, hd⟩ := item_sound _ _ _ _ hitem
          obtain ⟨t, us, rfl, -⟩ := hd.head rfl
          have hend₁ : Kind.eof ∈ c₁.kinds := by
            rw [hts] at hend
            exact (List.mem_append.mp hend).resolve_left hd.eof_not_mem
          have hlen : c₁.rest.length < c.rest.length := by
            rw [← Cursor.length_kinds, ← Cursor.length_kinds, hts]
            simp only [List.length_append, List.length_cons]
            omega
          cases hmore : items rounds c₁ with
          | mk is' fs =>
            dsimp only at h ⊢
            rw [hmore] at h
            cases h
            rw [ih hmore hc₂ hend₁ (by omega) (by omega)]

end Items

section Broken

variable {ts us vs rest : List Token} {c : Cursor} {f : Fault} {s : Span} {bound : Nat}

/-- What an item may be cut short to holds one beginning of an item at most. -/
lemma CutShort.countP_isHead_le {ks : List Kind} (h : CutShort ks) : ks.countP isHead ≤ 1 := by
  obtain ⟨us, i, hd⟩ := h
  have hone : (ks ++ us).countP isHead = 1 := hd.countP_isHead
  rw [List.countP_append] at hone
  omega

lemma ne_of_isHead {k k' : Kind} (hk : isHead k = true) (hk' : isHead k' = false) : k ≠ k' := by
  rintro rfl
  exact absurd (hk.symm.trans hk') (by decide)

lemma startsItem_of_isHead {k : Kind} (hk : isHead k = true) : startsItem k = true := by
  unfold isHead at hk
  split at hk
  · rfl
  · rfl
  · cases hk

lemma Broken.eq_cons (h : Broken (ts.map (·.kind))) :
    ∃ t us, ts = t :: us ∧ isHead t.kind = true := by
  cases ts with
  | nil => cases h.begins
  | cons t us => exact ⟨t, us, rfl, h.begins⟩

/-- The fault of a broken item is found in it, or at the token behind it. -/
lemma Broken.item_error (h : Broken (ts.map (·.kind)))
    (hrest : ∃ b bs, rest = b :: bs ∧ isHead b.kind = true) (bound : Nat) (s : Span) :
    ∃ us vs f c, item bound ⟨ts ++ rest, s⟩ = (.error f, c) ∧ ts = us ++ vs ∧
      c.rest = vs ++ rest ∧ CutShort (us.map (·.kind)) := by
  obtain ⟨t, ts, rfl, hk⟩ := h.eq_cons
  have hattr : ∀ text, Cursor.kind ⟨t :: ts ++ rest, s⟩ ≠ .attr text :=
    fun _ => ne_of_isHead hk rfl
  obtain ⟨us, hus, hspoken⟩ := (Steady.item (le_refl bound) (le_refl bound)).speaks _ hattr
  cases hitem : item bound ⟨t :: ts ++ rest, s⟩ with
  | mk r c =>
    rw [hitem] at hus hspoken
    have hcut : CutShort (us.map (·.kind)) := by
      cases r with
      | ok i =>
        obtain ⟨i, hi⟩ := hspoken
        exact ⟨[], i, by rwa [List.append_nil]⟩
      | error f =>
        obtain ⟨vs, i, hi⟩ := hspoken
        exact ⟨vs, i, hi⟩
    -- beyond the broken item there is the beginning of another
    obtain ⟨vs, hvs, hc⟩ : ∃ vs, t :: ts = us ++ vs ∧ c.rest = vs ++ rest := by
      rcases List.append_eq_append_iff.mp hus with ⟨vs, hvs, hc⟩ | hinside
      · cases vs with
        | nil => exact ⟨[], by rw [hvs]; simp, by rw [hc]; simp⟩
        | cons b vs =>
          obtain ⟨b', bs, rfl, hb⟩ := hrest
          obtain ⟨rfl, -⟩ : b' = b ∧ _ := List.cons.inj hc
          have hle := hcut.countP_isHead_le
          simp only [hvs, List.map_append, List.map_cons, List.countP_append, List.countP_cons, hk,
            hb, if_true] at hle
          omega
      · exact hinside
    cases r with
    | ok i =>
      obtain ⟨i, hi⟩ := hspoken
      refine absurd hi (h.noItem _ (vs.map (·.kind)) i ?_)
      rw [hvs, List.map_append]
    | error f => exact ⟨us, vs, f, c, rfl, hvs, hc, hcut⟩

/-- What can still become an item is not at fault, whatever stands behind it. -/
lemma CutShort.eq_nil (h : CutShort (ts.map (·.kind)))
    (hts : ∃ k ks, ts.map (·.kind) = k :: ks ∧ isHead k = true)
    (hitem : item (ts ++ rest).length ⟨ts ++ rest, s⟩ = (.error f, c)) (hus : ts = us ++ vs)
    (hc : c.rest = vs ++ rest) : vs = [] := by
  cases vs with
  | nil => rfl
  | cons v vs =>
    exfalso
    subst hus
    obtain ⟨ks, i, hd⟩ := h
    obtain ⟨k, ks', hks, hk⟩ := hts
    -- the same tokens, followed by what makes them an item
    let more : List Token := vs ++ (ks.map (⟨·, .none⟩) ++ ⟨.eof, .none⟩ :: rest)
    have hsplit : us ++ (v :: vs) ++ rest = us ++ v :: (vs ++ rest) := by simp
    have hlen : us.length < (us ++ v :: (vs ++ rest)).length := by
      simp only [List.length_append, List.length_cons]
      omega
    have hmore : (vs ++ rest).length ≤ more.length := by
      simp only [more, List.length_append, List.length_cons]
      omega
    have hattr : ∀ text, Cursor.kind ⟨us ++ v :: (vs ++ rest), s⟩ ≠ .attr text := by
      have hkind : Cursor.kind ⟨us ++ v :: (vs ++ rest), s⟩ = k := by
        rw [Cursor.kind_eq, Cursor.kinds, ← hsplit, List.map_append, hks]
        rfl
      rw [hkind]
      exact fun _ => ne_of_isHead hk rfl
    have hlooks := (Steady.item (le_refl (us ++ v :: (vs ++ rest)).length)
      (Nat.le_add_right _ ks.length)).looks us v (vs ++ rest) more s s hattr hlen hmore
    rw [hsplit] at hitem
    rw [hitem] at hlooks
    have hkinds : Cursor.kinds ⟨us ++ v :: more, s⟩ =
        (us ++ v :: vs).map (·.kind) ++ ks ++ .eof :: rest.map (·.kind) := by
      simp [Cursor.kinds, more, Function.comp_def]
    have hends : Level.comparison.Ends .eof := by
      simp [Level.Ends, comparison?, additive?, multiplicative?]
    have hbound : ((us ++ v :: vs).map (·.kind) ++ ks).length ≤
        (us ++ v :: (vs ++ rest)).length + ks.length := by
      simp only [List.length_append, List.length_map, List.length_cons]
      omega
    obtain ⟨j, c', hread, -⟩ := hd.read _ _ _ hbound hkinds hends
    have hok : item ((us ++ v :: (vs ++ rest)).length + ks.length) ⟨us ++ v :: more, s⟩ =
      (.ok j, c') := hread
    rw [hok] at hlooks
    cases (hlooks hc).1

lemma parse_of_error {t : Token} (ht : t.kind ≠ .eof)
    (hitem : item (t :: ts).length ⟨t :: ts, .none⟩ = (.error f, c)) :
    parse (t :: ts) = ⟨⟨(items ts.length (c.skipUntil startsItem)).1⟩,
      f :: (items ts.length (c.skipUntil startsItem)).2⟩ := by
  have hend : Cursor.atEnd ⟨t :: ts, .none⟩ = false := decide_eq_false ht
  have hitem' : item (Cursor.ofTokens (t :: ts)).rest.length (.ofTokens (t :: ts)) =
    (.error f, c) := hitem
  simp only [parse, List.length_cons, items]
  rw [hitem']
  simp [Cursor.ofTokens, hend]

lemma takeWhile_ne_eof {ks ls : List Kind} (hks : Kind.eof ∉ ks) (hls : ls.headD .eof = .eof) :
    (ks ++ ls).takeWhile (fun k => decide (k ≠ .eof)) = ks := by
  have hall : ∀ k ∈ ks, decide (k ≠ .eof) = true := by
    intro k hk
    exact decide_eq_true fun heq => hks (heq ▸ hk)
  rw [List.takeWhile_append_of_pos hall]
  cases ls with
  | nil => rw [List.takeWhile_nil, List.append_nil]
  | cons l ls =>
    obtain rfl : l = .eof := hls
    rw [List.takeWhile_cons_of_neg (by simp), List.append_nil]

lemma items_dropUntil_ne {b : Token} {bs : List Token} (hb : isHead b.kind = true)
    {is : List Item} {n m : Nat} (hparse : items n ⟨b :: bs, s⟩ = (is, [])) (hn : bs.length < n)
    (hm : bs.length ≤ m) : items m (Cursor.dropUntil startsItem b.span bs) ≠ (is, []) := by
  intro hskipped
  obtain ⟨us, hus, hend⟩ := exists_append_dropUntil startsItem b.span bs
  have hlen : (Cursor.dropUntil startsItem b.span bs).kinds.length ≤ m := by
    have hle := (Cursor.rest_dropUntil startsItem b.span bs).length_le
    rw [Cursor.length_kinds]
    omega
  have hlen' : (Cursor.kinds ⟨b :: bs, s⟩).length ≤ n := by
    rw [Cursor.length_kinds]
    exact hn
  obtain ⟨ks, ls, hks, hls, hd⟩ := items_sound hparse hlen'
  obtain ⟨ks', ls', hks', hls', hd'⟩ := items_sound hskipped hlen
  -- both go up to the first end of the file
  have hbefore : ks = b.kind :: (us.map (·.kind) ++ ks') := by
    have hbs : Cursor.kinds ⟨b :: bs, s⟩ = b.kind :: (us.map (·.kind) ++ ks') ++ ls' := by
      rw [List.cons_append, List.append_assoc, ← hks', Cursor.kinds, Cursor.kinds,
        ← List.map_append, ← hus, List.map_cons]
    rw [← takeWhile_ne_eof hd.eof_not_mem hls, ← hks, hbs]
    refine takeWhile_ne_eof ?_ hls'
    simp only [List.mem_cons, List.mem_append, not_or]
    exact ⟨(ne_of_isHead hb rfl).symm, hend, hd'.eof_not_mem⟩
  have hcount : ks.countP isHead = ks'.countP isHead :=
    hd.countP_isHead.trans hd'.countP_isHead.symm
  rw [hbefore, List.countP_cons, List.countP_append, hb, if_pos rfl] at hcount
  omega

end Broken

/-- Where reading goes on behind a broken item. -/
lemma Broken.parse_append {ts rest : List Token} (h : Broken (ts.map (·.kind)))
    (hrest : ∃ b bs, rest = b :: bs ∧ isHead b.kind = true) (hend : Kind.eof ∈ rest.map (·.kind))
    (hparse : (parse rest).faults = []) :
    (∃ f, parse (ts ++ rest) = ⟨(parse rest).tree, [f]⟩) ↔ ¬CutShort (ts.map (·.kind)) := by
  obtain ⟨us, vs, f, c, hitem, hts, hc, hcut⟩ :=
    h.item_error hrest (ts ++ rest).length .none
  obtain ⟨t, ts, rfl, hk⟩ := h.eq_cons
  have hwhole : items rest.length ⟨rest, .none⟩ = ((parse rest).tree.items, []) :=
    Prod.ext rfl hparse
  have hgoOn : (∃ f, parse (t :: ts ++ rest) = ⟨(parse rest).tree, [f]⟩) ↔
      items (ts ++ rest).length (c.skipUntil startsItem) = ((parse rest).tree.items, []) := by
    have hitem' : item (t :: (ts ++ rest)).length ⟨t :: (ts ++ rest), .none⟩ = (.error f, c) :=
      hitem
    rw [List.cons_append, parse_of_error (ne_of_isHead hk rfl) hitem']
    constructor
    · rintro ⟨f', heq⟩
      have htree := congrArg (fun p => p.tree.items) heq
      have hfaults := congrArg Parsed.faults heq
      exact Prod.ext htree (List.cons.inj hfaults).2
    · intro heq
      exact ⟨f, by rw [heq]⟩
  rw [hgoOn]
  cases vs with
  | nil =>
    -- the fault is found at the first token of the rest, and this token is lost
    rw [List.append_nil] at hts
    rw [← hts] at hcut
    refine iff_of_false ?_ (not_not_intro hcut)
    obtain ⟨b, bs, rfl, hb⟩ := hrest
    rw [skipUntil_eq hc (ne_of_isHead hb rfl)]
    refine items_dropUntil_ne hb hwhole (Nat.lt_succ_self _) ?_
    simp only [List.length_append, List.length_cons]
    omega
  | cons v vs =>
    have hnot : ¬CutShort ((t :: ts).map (·.kind)) := fun hcut' =>
      absurd (hcut'.eq_nil ⟨_, _, rfl, hk⟩ hitem hts hc) (List.cons_ne_nil v vs)
    refine iff_of_true ?_ hnot
    have hv : v.kind ≠ .eof := by
      intro heq
      refine h.noEnd ?_
      rw [hts, List.map_append, List.map_cons, heq]
      exact List.mem_append_right _ List.mem_cons_self
    have hsub : ∀ u ∈ vs, u ∈ ts := by
      intro u hu
      have hsuffix : v :: vs <:+ t :: ts := ⟨us, hts.symm⟩
      rcases List.suffix_cons_iff.mp hsuffix with heq | hsuffix
      · exact (List.cons.inj heq).2 ▸ hu
      · exact hsuffix.subset (List.mem_cons_of_mem v hu)
    have hskip : (c.skipUntil startsItem).rest = rest := by
      rw [skipUntil_eq (show c.rest = v :: (vs ++ rest) from hc) hv]
      refine rest_dropUntil_append (fun u hu => ?_) ?_
      · have hmem : u.kind ∈ ts.map (·.kind) := List.mem_map_of_mem (hsub u hu)
        exact ⟨fun heq => h.noEnd (List.mem_cons_of_mem _ (heq ▸ hmem)), h.noOther _ hmem⟩
      · obtain ⟨b, bs, rfl, hb⟩ := hrest
        exact ⟨b, bs, rfl, startsItem_of_isHead hb⟩
    refine items_same hwhole hskip hend (le_refl _) ?_
    simp only [List.length_append]
    omega

/-- Behind a broken item, a text without faults is read whole just if the broken item could not
still become an item there. -/
theorem parse_broken_append {A B : List Token} {e : Token} (hA : Broken (A.map (·.kind)))
    (hB : ∃ b bs, B = b :: bs ∧ isHead b.kind = true) (he : e.kind = .eof)
    (hparse : (parse (B ++ [e])).faults = []) :
    (∃ f, parse (A ++ (B ++ [e])) = ⟨(parse (B ++ [e])).tree, [f]⟩) ↔
      ¬CutShort (A.map (·.kind)) := by
  obtain ⟨b, bs, rfl, hb⟩ := hB
  refine hA.parse_append ⟨b, bs ++ [e], rfl, hb⟩ ?_ hparse
  rw [List.map_append, ← he]
  exact List.mem_append_right _ List.mem_cons_self

def openCase : List Token :=
  [Kind.keyword .variant, .ident "A", .symbol .leftBrace, .ident "x", .symbol .leftParen,
    .symbol .rightBrace].map (⟨·, .none⟩)

def noBody : List Token :=
  [Kind.keyword .fn, .ident "f", .symbol .leftParen, .symbol .rightParen, .symbol .assign].map
    (⟨·, .none⟩)

/-- A function that is whole. -/
def wholeMain : List Token :=
  [Kind.keyword .fn, .ident "main", .symbol .leftParen, .symbol .rightParen, .symbol .assign,
    .int 1].map (⟨·, .none⟩)

theorem parse_broken_append_openCase :
    (∃ f, parse (openCase ++ (wholeMain ++ [⟨.eof, .none⟩])) =
      ⟨(parse (wholeMain ++ [⟨.eof, .none⟩])).tree, [f]⟩) ∧ ¬CutShort (openCase.map (·.kind)) := by
  have hread : ∃ f, parse (openCase ++ (wholeMain ++ [⟨.eof, .none⟩])) =
      ⟨(parse (wholeMain ++ [⟨.eof, .none⟩])).tree, [f]⟩ := ⟨_, rfl⟩
  exact ⟨hread, (parse_broken_append (by decide) ⟨_, _, rfl, rfl⟩ rfl rfl).mp hread⟩

/-- A function is lost behind one that breaks off before its body. -/
theorem parse_broken_append_noBody :
    Broken (noBody.map (·.kind)) ∧ (∃ b bs, wholeMain = b :: bs ∧ isHead b.kind = true) ∧
      (parse (wholeMain ++ [⟨.eof, .none⟩])).faults = [] ∧
      ¬∃ f, parse (noBody ++ (wholeMain ++ [⟨.eof, .none⟩])) =
        ⟨(parse (wholeMain ++ [⟨.eof, .none⟩])).tree, [f]⟩ := by
  refine ⟨by decide, ⟨_, _, rfl, rfl⟩, rfl, ?_⟩
  rintro ⟨f, heq⟩
  have hlen : 0 = 1 := congrArg (fun p => p.tree.items.length) heq
  exact absurd hlen Nat.zero_ne_one

end ClosedSum.Grammar
