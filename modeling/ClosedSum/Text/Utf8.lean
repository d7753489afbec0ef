/-!
# Byte offsets

A position in a text is a byte offset into its UTF-8 form. A slice exists only between two offsets
that fall on character boundaries.
-/

namespace ClosedSum.Text

/-- Length in bytes. -/
def byteLength (cs : List Char) : Nat := cs.foldr (fun c n => c.utf8Size + n) 0

@[simp] theorem byteLength_nil : byteLength [] = 0 := rfl

@[simp] theorem byteLength_cons (c : Char) (cs : List Char) :
    byteLength (c :: cs) = c.utf8Size + byteLength cs := by simp [byteLength]

@[simp] theorem byteLength_append (cs ds : List Char) :
    byteLength (cs ++ ds) = byteLength cs + byteLength ds := by
  induction cs with
  | nil => simp
  | cons c cs ih => simp [ih, Nat.add_assoc]

theorem utf8Size_ne_zero (c : Char) : c.utf8Size ≠ 0 := Nat.ne_of_gt (Char.utf8Size_pos c)

/-- What follows byte `n`, or nothing when `n` is inside a character or past the end. -/
def dropBytes? (cs : List Char) (n : Nat) : Option (List Char) :=
  if n = 0 then some cs else match cs with
    | [] => none
    | c :: cs => if c.utf8Size ≤ n then dropBytes? cs (n - c.utf8Size) else none

/-- What stands before byte `n`, or nothing when `n` is inside a character or past the end. -/
def takeBytes? (cs : List Char) (n : Nat) : Option (List Char) :=
  if n = 0 then some [] else match cs with
    | [] => none
    | c :: cs => if c.utf8Size ≤ n then (takeBytes? cs (n - c.utf8Size)).map (c :: ·) else none

@[simp] theorem dropBytes?_zero (cs : List Char) : dropBytes? cs 0 = some cs := by
  unfold dropBytes?; simp

@[simp] theorem takeBytes?_zero (cs : List Char) : takeBytes? cs 0 = some [] := by
  unfold takeBytes?; simp

theorem dropBytes?_cons (c : Char) (cs : List Char) (n : Nat) :
    dropBytes? (c :: cs) (c.utf8Size + n) = dropBytes? cs n := by
  rw [dropBytes?]
  simp [utf8Size_ne_zero]

theorem takeBytes?_cons (c : Char) (cs : List Char) (n : Nat) :
    takeBytes? (c :: cs) (c.utf8Size + n) = (takeBytes? cs n).map (c :: ·) := by
  rw [takeBytes?]
  simp [utf8Size_ne_zero]

/-- Dropping the bytes of a front part leaves the part behind it. -/
theorem dropBytes?_append (cs ds : List Char) (n : Nat) :
    dropBytes? (cs ++ ds) (byteLength cs + n) = dropBytes? ds n := by
  induction cs with
  | nil => simp
  | cons c cs ih => rw [List.cons_append, byteLength_cons, Nat.add_assoc, dropBytes?_cons, ih]

theorem takeBytes?_append (cs ds : List Char) :
    takeBytes? (cs ++ ds) (byteLength cs) = some cs := by
  induction cs with
  | nil => simp
  | cons c cs ih => rw [List.cons_append, byteLength_cons, takeBytes?_cons, ih]; rfl

/-- The characters from byte `start` up to byte `stop`. -/
def slice? (cs : List Char) (start stop : Nat) : Option (List Char) :=
  if start ≤ stop then (dropBytes? cs start).bind (takeBytes? · (stop - start)) else none

theorem slice?_append (pre mid post : List Char) :
    slice? (pre ++ (mid ++ post)) (byteLength pre) (byteLength pre + byteLength mid) =
      some mid := by
  have hdrop : dropBytes? (pre ++ (mid ++ post)) (byteLength pre) = some (mid ++ post) := by
    simpa using dropBytes?_append pre (mid ++ post) 0
  simp [slice?, hdrop, takeBytes?_append]

end ClosedSum.Text
