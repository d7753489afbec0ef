import ClosedSum.Proofs.Parsing
import ClosedSum.Proofs.ParserWalks

/-!
# Parsing ends

A parse needs no bound: for every number of rounds from that of the tokens on, the walk over a file
is not cut off and comes to the same. It goes through the tokens one by one up to the end of the
file, each round of its loop reads one token at least, and the faults lie one behind the other.
-/

namespace ClosedSum.Grammar

open Surface
open Token (Kind)

/-- A round of the loop over a file: where it begins, and what is read up to where. -/
structure Turn where
  start : Cursor
  result : Except Fault Item
  reached : Cursor

namespace Turn

def item? (t : Turn) : Option Item := t.result.toOption

def fault? (t : Turn) : Option Fault :=
  match t.result with
  | .error f => some f
  | .ok _ => none

variable {c c' : Cursor} {i : Item} {f : Fault}

@[simp] lemma item?_ok : item? ⟨c, .ok i, c'⟩ = some i := rfl

@[simp] lemma item?_error : item? ⟨c, .error f, c'⟩ = none := rfl

@[simp] lemma fault?_ok : fault? ⟨c, .ok i, c'⟩ = none := rfl

@[simp] lemma fault?_error : fault? ⟨c, .error f, c'⟩ = some f := rfl

end Turn

namespace Walk

/-- A fault ends no more than the attempt. -/
def attempt {α : Type} (w : Walk α) : Walk (Except Fault α) := fun c =>
  (w c).map fun r => ⟨.ok r.result, r.stop, r.path⟩

def dropUntil (stop : Kind → Bool) : Nat → Walk Unit
  | 0 => cutOff
  | rounds + 1 => do
    if ← see fun c => c.atEnd || stop c.kind then return ()
    else
      let _ ← next
      dropUntil stop rounds

def skipUntil (stop : Kind → Bool) (bound : Nat) : Walk Unit := do
  let _ ← next
  dropUntil stop bound

/-- The loop over a file. -/
def turns (bound : Nat) : Nat → Walk (List Turn)
  | 0 => cutOff
  | rounds + 1 => do
    if ← see (·.atEnd) then return []
    else
      let start ← see id
      let result ← attempt (item bound)
      let reached ← see id
      match result with
      | .ok _ => return ⟨start, result, reached⟩ :: (← turns bound rounds)
      | .error _ =>
        skipUntil startsItem bound
        return ⟨start, result, reached⟩ :: (← turns bound rounds)

end Walk

section Skipping

variable {stop : Kind → Bool} {n bound : Nat}

lemma Cursor.dropUntil_rest (c : Cursor) : dropUntil stop c.previous c.rest =
    if (c.atEnd || stop c.kind) = true then c
      else dropUntil stop c.advance.2.previous c.advance.2.rest := by
  obtain ⟨rest, previous⟩ := c
  cases rest with
  | nil => rfl
  | cons t ts =>
    by_cases hend : t.kind = .eof
    · simp [dropUntil, atEnd, kind, current, hend]
    · by_cases hstop : stop t.kind = true
      · simp [dropUntil, atEnd, kind, current, hstop]
      · simp [dropUntil, atEnd, kind, current, span, advance, hend, hstop]

/-- Skipping as a parser. -/
def Parse.dropUntil (stop : Kind → Bool) : Parse Unit := fun c =>
  (.ok (), Cursor.dropUntil stop c.previous c.rest)

lemma Parse.dropUntil_eq (stop : Kind → Bool) : Parse.dropUntil stop =
    Parse.see (fun c => c.atEnd || stop c.kind) >>= fun b => if b = true then pure ()
      else Parse.next >>= fun _ => Parse.dropUntil stop := by
  funext c
  change (.ok (), Cursor.dropUntil stop c.previous c.rest) =
    (if (c.atEnd || stop c.kind) = true then (pure () : Parse Unit)
      else Parse.next >>= fun _ => Parse.dropUntil stop) c
  rw [Cursor.dropUntil_rest]
  split <;> rfl

lemma Traces.dropUntil : ∀ {rounds n : Nat}, n ≤ rounds →
    Traces Any n (Walk.dropUntil stop rounds) (Parse.dropUntil stop)
  | 0, _, hn => zero hn
  | rounds + 1, n, hn => by
    rw [Parse.dropUntil_eq]
    refine see fun c _ => ?_
    cases hend : c.atEnd || stop c.kind with
    | true => exact pure _
    | false =>
      have hne : c.kind ≠ .eof := by
        simpa [Cursor.atEnd] using (Bool.or_eq_false_iff.mp hend).1
      exact nextThen hne fun _ => dropUntil (by omega)

lemma Traces.skipUntil (stop : Kind → Bool) (hn : n ≤ bound) :
    Traces Any n (Walk.skipUntil stop bound) fun c => (.ok (), c.skipUntil stop) :=
  next.bind fun _ => dropUntil hn

end Skipping

section Progress

variable {c c' : Cursor} {bound : Nat}

lemma Cursor.length_skipUntil_lt (stop : Kind → Bool) (h : c.atEnd = false) :
    (c.skipUntil stop).rest.length < c.rest.length := by
  rw [rest_of_not_atEnd h, List.length_cons, Nat.lt_succ_iff]
  exact (rest_dropUntil stop _ _).length_le

lemma Cursor.skipUntil_of_atEnd (stop : Kind → Bool) (h : c.atEnd = true) :
    c.skipUntil stop = c := by
  rw [skipUntil, advance_of_atEnd h, dropUntil_rest, h]
  rfl

lemma suffix_of_item {result : Except Fault Item} (h : item bound c = (result, c')) :
    c'.rest <:+ c.rest := by
  have hsuffix := item_advances bound c
  rwa [h] at hsuffix

lemma length_lt_of_item {i : Item} (h : item bound c = (.ok i, c')) :
    c'.rest.length < c.rest.length := by
  obtain ⟨ts, hts, hd⟩ := item_sound _ _ _ _ h
  obtain ⟨t, us, rfl, -⟩ := hd.head rfl
  have hlen := congrArg List.length hts
  rw [List.length_append, List.length_cons, c.length_kinds, c'.length_kinds] at hlen
  omega

/-- Where no item can be read, a token is skipped, unless the fault is found at the end. -/
lemma length_skipUntil_lt_of_item (stop : Kind → Bool) {f : Fault} (hend : c.atEnd = false)
    (h : item bound c = (.error f, c')) :
    (c'.skipUntil stop).rest.length < c.rest.length := by
  have hsuffix := suffix_of_item h
  cases hend' : c'.atEnd with
  | false => exact (Cursor.length_skipUntil_lt stop hend').trans_le hsuffix.length_le
  | true =>
    refine lt_of_le_of_ne (((c'.rest_skipUntil stop).trans hsuffix).length_le) fun hlen => ?_
    rw [Cursor.skipUntil_of_atEnd _ hend'] at hlen
    have hsame : c'.rest = c.rest := hsuffix.eq_of_length hlen
    have hkind : c'.atEnd = c.atEnd := by
      rw [Cursor.atEnd, Cursor.kind, Cursor.current, hsame]
      rfl
    rw [hend', hend] at hkind
    cases hkind

end Progress

/-- Rounds one behind the other, up to the end of the file. -/
inductive Turns : Cursor → List Turn → Cursor → Prop
  | done {c : Cursor} : c.atEnd = true → Turns c [] c
  | read {c c' d : Cursor} {i : Item} {turns : List Turn} : c.atEnd = false →
      item c.rest.length c = (.ok i, c') → Turns c' turns d →
      Turns c (⟨c, .ok i, c'⟩ :: turns) d
  | skip {c c' d : Cursor} {f : Fault} {turns : List Turn} : c.atEnd = false →
      item c.rest.length c = (.error f, c') → Turns (c'.skipUntil startsItem) turns d →
      Turns c (⟨c, .error f, c'⟩ :: turns) d

lemma exists_turns (c : Cursor) : ∃ turns d, Turns c turns d := by
  induction hn : c.rest.length using Nat.strong_induction_on generalizing c with
  | _ n ih =>
    subst hn
    cases hend : c.atEnd with
    | true => exact ⟨[], c, .done hend⟩
    | false =>
      cases hitem : item c.rest.length c with
      | mk result c' =>
        cases result with
        | ok i =>
          obtain ⟨turns, d, h⟩ := ih _ (length_lt_of_item hitem) c' rfl
          exact ⟨_, d, .read hend hitem h⟩
        | error f =>
          obtain ⟨turns, d, h⟩ := ih _ (length_skipUntil_lt_of_item startsItem hend hitem) _ rfl
          exact ⟨_, d, .skip hend hitem h⟩

namespace Walk

variable {α β : Type} {c d : Cursor}

lemma see_bind (look : Cursor → α) (f : α → Walk β) (c : Cursor) :
    (see look >>= f) c = f (look c) c := by
  change (f (look c) c).map _ = _
  cases f (look c) c <;> rfl

lemma bind_of_some {w : Walk α} {f : α → Walk β} {a : α} {result : Except Fault β} {e : Cursor}
    {path path' : List Cursor} (hw : w c = some ⟨.ok a, d, path⟩)
    (hf : f a d = some ⟨result, e, path'⟩) :
    (w >>= f) c = some ⟨result, e, path ++ path'⟩ := by
  change Walk.bind w f c = _
  rw [Walk.bind, hw]
  simp only [hf, Option.map_some]

end Walk

lemma exists_round {c : Cursor} {rounds : Nat} (heof : .eof ∈ c.kinds)
    (hlen : c.rest.length ≤ rounds) : ∃ m, rounds = m + 1 := by
  have hpos := Cursor.length_pos heof
  exact ⟨rounds - 1, by omega⟩

lemma attempt_item {c c' : Cursor} {bound : Nat} {result : Except Fault Item}
    (heof : .eof ∈ c.kinds) (hlen : c.rest.length ≤ bound)
    (h : item c.rest.length c = (result, c')) :
    ∃ path, Walk.attempt (Walk.item bound) c = some ⟨.ok result, c', path⟩ ∧ Path c path c' ∧
      ∀ f, result = .error f → f.PointsAt c'.current := by
  obtain ⟨path, hw, hpath, hfault⟩ := Traces.item hlen (le_refl _) c trivial heof (le_refl _)
  rw [h] at hw hpath hfault
  exact ⟨path, by rw [Walk.attempt, hw]; rfl, hpath, hfault⟩

namespace Turns

variable {c d : Cursor} {turns : List Turn} {rounds bound : Nat}

/-- The loop with as many rounds as tokens comes to the end of the file, through all tokens. -/
theorem walk (h : Turns c turns d) (heof : .eof ∈ c.kinds) (hlen : c.rest.length ≤ rounds)
    (hbound : rounds ≤ bound) :
    ∃ path, Walk.turns bound rounds c = some ⟨.ok turns, d, path⟩ ∧ Path c path d := by
  -- a round leaves fewer tokens, so one round less is enough behind it
  induction h generalizing rounds with
  | @done c hend =>
    obtain ⟨rounds, rfl⟩ := exists_round heof hlen
    exact ⟨[], by rw [Walk.turns, Walk.see_bind, hend]; rfl, .stay c⟩
  | @read c c' d i turns hend hitem h ih =>
    obtain ⟨rounds, rfl⟩ := exists_round heof hlen
    have hless := length_lt_of_item hitem
    obtain ⟨path, hw, hpath, -⟩ := attempt_item heof (hlen.trans hbound) hitem
    obtain ⟨path', hw', hpath'⟩ := @ih rounds (hpath.eof_mem heof) (by omega) (by omega)
    refine ⟨path ++ (path' ++ []), ?_, hpath.append (by rwa [List.append_nil])⟩
    rw [Walk.turns, Walk.see_bind, hend]
    refine (Walk.see_bind id _ c).trans (Walk.bind_of_some hw ?_)
    exact (Walk.see_bind id _ c').trans (Walk.bind_of_some hw' rfl)
  | @skip c c' d f turns hend hitem h ih =>
    obtain ⟨rounds, rfl⟩ := exists_round heof hlen
    have hless := length_skipUntil_lt_of_item startsItem hend hitem
    obtain ⟨path, hw, hpath, -⟩ := attempt_item heof (hlen.trans hbound) hitem
    obtain ⟨path', hw', hpath', -⟩ := Traces.skipUntil startsItem
      (hpath.suffix.length_le.trans (hlen.trans hbound)) c' trivial (hpath.eof_mem heof) (le_refl _)
    obtain ⟨path'', hw'', hpath''⟩ := @ih rounds ((hpath.append hpath').eof_mem heof)
      (by omega) (by omega)
    refine ⟨path ++ (path' ++ (path'' ++ [])), ?_,
      hpath.append (hpath'.append (by rwa [List.append_nil]))⟩
    rw [Walk.turns, Walk.see_bind, hend]
    refine (Walk.see_bind id _ c).trans (Walk.bind_of_some hw ?_)
    refine (Walk.see_bind id _ c').trans (Walk.bind_of_some hw' ?_)
    exact Walk.bind_of_some hw'' rfl

/-- The loop ends before the end of the file. -/
lemma atEnd_stop (h : Turns c turns d) : d.atEnd = true := by
  induction h with
  | done hend => exact hend
  | read _ _ _ ih => exact ih
  | skip _ _ _ ih => exact ih

/-- What is parsed is what the rounds come to. -/
lemma items_eq (h : Turns c turns d) (hlen : c.rest.length ≤ rounds) :
    items rounds c = (turns.filterMap Turn.item?, turns.filterMap Turn.fault?) := by
  induction h generalizing rounds with
  | @done c hend =>
    cases rounds with
    | zero => rfl
    | succ rounds => rw [items, hend]; rfl
  | @read c c' d i turns hend hitem h ih =>
    have hless := length_lt_of_item hitem
    obtain ⟨rounds, rfl⟩ : ∃ m, rounds = m + 1 := ⟨rounds - 1, by omega⟩
    simp [items, hend, hitem, @ih rounds (by omega), List.filterMap_cons]
  | @skip c c' d f turns hend hitem h ih =>
    have hless := length_skipUntil_lt_of_item startsItem hend hitem
    obtain ⟨rounds, rfl⟩ : ∃ m, rounds = m + 1 := ⟨rounds - 1, by omega⟩
    simp [items, hend, hitem, @ih rounds (by omega), List.filterMap_cons]

/-- Every round reads a token. -/
lemma length_add_le (h : Turns c turns d) : turns.length + d.rest.length ≤ c.rest.length := by
  induction h with
  | done => simp
  | read hend hitem h ih =>
    have := length_lt_of_item hitem
    rw [List.length_cons]
    omega
  | skip hend hitem h ih =>
    have := length_skipUntil_lt_of_item startsItem hend hitem
    rw [List.length_cons]
    omega

end Turns

lemma length_filterMap_turns (turns : List Turn) :
    (turns.filterMap Turn.item?).length + (turns.filterMap Turn.fault?).length = turns.length := by
  induction turns with
  | nil => rfl
  | cons t turns ih =>
    obtain ⟨start, result, reached⟩ := t
    cases result <;> simp [List.filterMap_cons] <;> omega

/-- How many of the tokens are before a cursor. -/
def Cursor.position (tokens : List Token) (c : Cursor) : Nat := tokens.length - c.rest.length

section Positions

variable {tokens : List Token} {c c' d : Cursor} {path : List Cursor} {turns : List Turn}

lemma Cursor.rest_eq_drop (h : c.rest <:+ tokens) : c.rest = tokens.drop (c.position tokens) :=
  List.suffix_iff_eq_drop.mp h

lemma Cursor.getElem?_position (h : c.rest <:+ tokens) (heof : .eof ∈ c.kinds) :
    tokens[c.position tokens]? = some c.current := by
  rw [← List.head?_drop, ← rest_eq_drop h]
  obtain ⟨rest, previous⟩ := c
  cases rest with
  | nil => cases heof
  | cons t ts => rfl

lemma Cursor.position_lt (h : c'.rest.length < c.rest.length) (hc : c.rest <:+ tokens) :
    c.position tokens < c'.position tokens := by
  have := hc.length_le
  unfold position
  omega

lemma Cursor.position_le (h : c'.rest <:+ c.rest) : c.position tokens ≤ c'.position tokens := by
  have := h.length_le
  unfold position
  omega

/-- The end of the file is the last position. -/
lemma Cursor.position_of_atEnd {ts : List Token} {e : Token} (hts : ∀ t ∈ ts, t.kind ≠ .eof)
    (hc : c.rest <:+ ts ++ [e]) (heof : .eof ∈ c.kinds) (hend : c.atEnd = true) :
    c.position (ts ++ [e]) = ts.length := by
  have hget := getElem?_position hc heof
  obtain ⟨hlt, -⟩ := List.getElem?_eq_some_iff.mp hget
  rw [List.length_append, List.length_singleton] at hlt
  by_contra hne
  rw [List.getElem?_append_left (by omega)] at hget
  exact hts _ (List.mem_of_getElem? hget) (of_decide_eq_true hend)

/-- A path goes through the positions one by one. -/
lemma Path.positions (h : Path c path d) (hc : c.rest <:+ tokens) :
    path.map (·.position tokens) = List.range' (c.position tokens + 1) path.length ∧
      d.position tokens = c.position tokens + path.length ∧
      ∀ e ∈ c :: path, e.rest <:+ tokens := by
  induction h with
  | stay c => simpa using hc
  | @step c d path hend h ih =>
    have hrest := Cursor.rest_of_not_atEnd hend
    have hnext : c.advance.2.position tokens = c.position tokens + 1 := by
      have hle := hc.length_le
      unfold Cursor.position
      rw [hrest, List.length_cons] at hle ⊢
      omega
    obtain ⟨hmap, hstop, hall⟩ := ih (c.rest_advance.trans hc)
    rw [hnext] at hmap hstop
    refine ⟨?_, by rw [hstop, List.length_cons]; omega, List.forall_mem_cons.mpr ⟨hc, hall⟩⟩
    rw [List.map_cons, hmap, hnext, List.length_cons, List.range'_succ]

/-- Every round begins behind the one before, and the last ends behind its own beginning. -/
lemma Turns.pairwise_starts (h : Turns c turns d) (hc : c.rest <:+ tokens) :
    (turns.map (·.start.position tokens) ++ [d.position tokens]).Pairwise (· < ·) ∧
      ∀ p ∈ turns.map (·.start.position tokens) ++ [d.position tokens],
        c.position tokens ≤ p := by
  have hcons : ∀ {c c' : Cursor} {ps : List Nat}, c.rest <:+ tokens →
      c'.rest.length < c.rest.length → ps.Pairwise (· < ·) ∧ (∀ p ∈ ps, c'.position tokens ≤ p) →
        (c.position tokens :: ps).Pairwise (· < ·) ∧
          ∀ p ∈ c.position tokens :: ps, c.position tokens ≤ p := by
    intro c c' ps hc hless hps
    have hlt := Cursor.position_lt hless hc
    refine ⟨.cons (fun p hp => ?_) hps.1, List.forall_mem_cons.mpr ⟨le_refl _, fun p hp => ?_⟩⟩
    · exact hlt.trans_le (hps.2 p hp)
    · exact hlt.le.trans (hps.2 p hp)
  induction h with
  | done => simp
  | read hend hitem h ih =>
    exact hcons hc (length_lt_of_item hitem) (ih ((suffix_of_item hitem).trans hc))
  | @skip c c' _ _ _ hend hitem h ih =>
    exact hcons hc (length_skipUntil_lt_of_item startsItem hend hitem)
      (ih ((c'.rest_skipUntil startsItem).trans ((suffix_of_item hitem).trans hc)))

/-- The faults point at tokens one behind the other. -/
lemma Turns.exists_positions (h : Turns c turns d) (hc : c.rest <:+ tokens)
    (heof : .eof ∈ c.kinds) :
    ∃ ps : List Nat, ps.Pairwise (· < ·) ∧ (∀ p ∈ ps, c.position tokens ≤ p) ∧
      List.Forall₂ (fun f p => ∃ t, tokens[p]? = some t ∧ Fault.PointsAt f t)
        (turns.filterMap Turn.fault?) ps := by
  induction h with
  | done => exact ⟨[], .nil, List.forall_mem_nil _, .nil⟩
  | @read c c' _ _ _ hend hitem h ih =>
    obtain ⟨path, -, hpath, -⟩ := attempt_item heof (le_refl _) hitem
    obtain ⟨ps, hps, hle, hfaults⟩ := ih (hpath.suffix.trans hc) (hpath.eof_mem heof)
    exact ⟨ps, hps, fun p hp => (Cursor.position_le hpath.suffix).trans (hle p hp), hfaults⟩
  | @skip c c' d f turns hend hitem h ih =>
    obtain ⟨path, -, hpath, hpoints⟩ := attempt_item heof (le_refl _) hitem
    have hc' := hpath.suffix.trans hc
    have heof' := hpath.eof_mem heof
    have hhead : ∃ t, tokens[c'.position tokens]? = some t ∧ f.PointsAt t :=
      ⟨_, Cursor.getElem?_position hc' heof', hpoints f rfl⟩
    have hle' : c.position tokens ≤ c'.position tokens := Cursor.position_le hpath.suffix
    cases hend' : c'.atEnd with
    | true =>
      -- a fault at the end of the file is the last one
      rw [Cursor.skipUntil_of_atEnd _ hend'] at h
      cases h with
      | done => exact ⟨[c'.position tokens], List.pairwise_singleton _ _, by simpa using hle',
          .cons hhead .nil⟩
      | read hend => rw [hend'] at hend; cases hend
      | skip hend => rw [hend'] at hend; cases hend
    | false =>
      obtain ⟨path', -, hpath', -⟩ := Traces.skipUntil startsItem (le_refl _)
        c' trivial heof' (le_refl _)
      obtain ⟨ps, hps, hle, hfaults⟩ := ih (hpath'.suffix.trans hc') (hpath'.eof_mem heof')
      have hlt := Cursor.position_lt (Cursor.length_skipUntil_lt startsItem hend') hc'
      exact ⟨c'.position tokens :: ps, .cons (fun p hp => hlt.trans_le (hle p hp)) hps,
        List.forall_mem_cons.mpr ⟨hle', fun p hp => hle'.trans (hlt.le.trans (hle p hp))⟩,
        .cons hhead hfaults⟩

end Positions

/-- What the scanner could not read derives from nothing. -/
lemma Derives.invalid_not_mem {p : Phrase} {ts : List Kind} {a : p.Tree} (h : Derives p ts a) :
    Kind.invalid ∉ ts := by
  induction h with
  | @operationsCons l l' t op _ _ _ _ _ hl hop hb h ihb ih =>
    have ht : Kind.invalid ≠ t := by
      rintro rfl
      cases l <;> cases hop
    simp [ht, ihb, ih]
  | _ => simp [*]

/-- Parsing ends, whatever the tokens are: the loop over a file comes to its end without a bound,
through each token once and in order. Each round reads a token, each fault points at a token behind
those of the faults before it, and a token that the scanner could not read is a fault. -/
theorem parse_ends {ts : List Token} {e : Token} (hts : ∀ t ∈ ts, t.kind ≠ .eof)
    (he : e.kind = .eof) :
    let tokens := ts ++ [e]
    let start := Cursor.ofTokens tokens
    let items := (parse tokens).tree.items
    let faults := (parse tokens).faults
    ∃ turns stop path,
      (∀ bound, tokens.length ≤ bound →
        Walk.turns bound bound start = some ⟨.ok turns, stop, path⟩) ∧
      items = turns.filterMap Turn.item? ∧ faults = turns.filterMap Turn.fault? ∧
      (∀ c ∈ start :: path, c.rest = tokens.drop (c.position tokens)) ∧
      path.map (·.position tokens) = List.range' 1 ts.length ∧
      (turns.map (·.start.position tokens) ++ [ts.length]).Pairwise (· < ·) ∧
      items.length + faults.length ≤ ts.length ∧
      (∃ ps : List Nat, ps.Pairwise (· < ·) ∧
        List.Forall₂ (fun f p => ∃ t, tokens[p]? = some t ∧ Fault.PointsAt f t) faults ps) ∧
      (.invalid ∈ ts.map (·.kind) → faults ≠ []) := by
  intro tokens start items faults
  have hstart : start.rest <:+ tokens := List.suffix_rfl
  have heof : .eof ∈ start.kinds := by simp [start, tokens, Cursor.kinds, Cursor.ofTokens, he]
  obtain ⟨turns, stop, h⟩ := exists_turns start
  obtain ⟨path, -, hpath⟩ := h.walk heof (le_refl start.rest.length) (le_refl _)
  have hstop : stop.position tokens = ts.length :=
    Cursor.position_of_atEnd hts (hpath.suffix.trans hstart) (hpath.eof_mem heof) h.atEnd_stop
  obtain ⟨hpositions, hlength, hsuffix⟩ := hpath.positions hstart
  have hzero : start.position tokens = 0 := Nat.sub_self tokens.length
  have hall := h.items_eq (le_refl start.rest.length)
  have hitems : items = turns.filterMap Turn.item? := congrArg Prod.fst hall
  have hfaults : faults = turns.filterMap Turn.fault? := congrArg Prod.snd hall
  obtain ⟨hstarts, -⟩ := h.pairwise_starts hstart
  obtain ⟨ps, hps, -, hpoints⟩ := h.exists_positions hstart heof
  refine ⟨turns, stop, path, fun bound hbound => ?_, hitems, hfaults,
    fun c hc => Cursor.rest_eq_drop (hsuffix c hc), ?_, hstop ▸ hstarts, ?_, ⟨ps, hps, ?_⟩,
    fun hinvalid hnone => ?_⟩
  · obtain ⟨path', hwalk, hpath'⟩ := h.walk heof hbound (le_refl bound)
    rwa [hpath.unique hpath']
  · rw [hpositions, hzero, Nat.zero_add]
    congr 1
    omega
  · have hcount := h.length_add_le
    have hleft := Cursor.length_pos (hpath.eof_mem heof)
    have hlen : start.rest.length = ts.length + 1 := List.length_append
    rw [hitems, hfaults, length_filterMap_turns]
    omega
  · rwa [hfaults]
  · have hend : tokens.map (·.kind) = ts.map (·.kind) ++ [.eof] := by simp [tokens, he]
    have hks : Kind.eof ∉ ts.map (·.kind) := by simpa using hts
    obtain ⟨is, hd⟩ := (parse_exact hend hks).1.mp hnone
    exact hd.invalid_not_mem hinvalid

/-- No name where one is due, and an attribute before a function. -/
def malformed : List Token :=
  [Kind.keyword .fn, .invalid, .attr "x", .keyword .fn].map (⟨·, .none⟩)

/-- Two faults are found, of the second token and the fourth, and five rounds are enough. -/
theorem parse_ends_malformed :
    let tokens := malformed ++ [⟨.eof, .none⟩]
    (∀ t ∈ malformed, t.kind ≠ .eof) ∧ Kind.invalid ∈ malformed.map (·.kind) ∧
      (∃ walked, Walk.turns 5 5 (.ofTokens tokens) = some walked) ∧
      (parse tokens).faults ≠ [] ∧
      (parse tokens).faults.map (·.cause.found) = [.invalid, .keyword .fn] := by
  intro tokens
  have hts : ∀ t ∈ malformed, t.kind ≠ .eof := by decide
  have hinvalid : Kind.invalid ∈ malformed.map (·.kind) := by decide
  obtain ⟨turns, stop, path, hwalk, -, -, -, -, -, -, -, hfault⟩ :=
    parse_ends (e := ⟨.eof, .none⟩) hts rfl
  exact ⟨hts, hinvalid, ⟨_, hwalk 5 (le_refl 5)⟩, hfault hinvalid, rfl⟩

end ClosedSum.Grammar
