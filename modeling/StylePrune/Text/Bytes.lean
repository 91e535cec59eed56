/-!
# Byte offsets in a text

A text is a list of characters, and a position in it is the number of UTF-8 bytes in
front. Offsets that arise here are sizes of a front part, so cutting a text at one of
them gives that front part back: `before_size` and `after_size` are the two facts the
rest of the library uses.
-/

namespace StylePrune.Text

/-- The number of UTF-8 bytes of a run of characters. -/
def size : List Char → Nat
  | [] => 0
  | c :: cs => c.utf8Size + size cs

@[simp]
theorem size_nil : size [] = 0 := rfl

@[simp]
theorem size_cons (c : Char) (cs : List Char) : size (c :: cs) = c.utf8Size + size cs := rfl

@[simp]
theorem size_append (cs ds : List Char) : size (cs ++ ds) = size cs + size ds := by
  induction cs with
  | nil => simp
  | cons c cs ih => simp [ih, Nat.add_assoc]

/-- The part of a text in front of a byte offset. -/
def before : Nat → List Char → List Char
  | _, [] => []
  | n, c :: cs => if n = 0 then [] else c :: before (n - c.utf8Size) cs

/-- The part of a text from a byte offset on. -/
def after : Nat → List Char → List Char
  | _, [] => []
  | n, c :: cs => if n = 0 then c :: cs else after (n - c.utf8Size) cs

theorem before_append_after (n : Nat) (cs : List Char) :
    before n cs ++ after n cs = cs := by
  induction cs generalizing n with
  | nil => rfl
  | cons c cs ih =>
      by_cases h : n = 0
      · simp [before, after, h]
      · simp [before, after, h, ih]

/-- Cutting at the size of a front part gives the front part. -/
@[simp]
theorem before_size (cs ds : List Char) : before (size cs) (cs ++ ds) = cs := by
  induction cs with
  | nil => cases ds <;> simp [before]
  | cons c cs ih =>
      have h : c.utf8Size ≠ 0 := Nat.pos_iff_ne_zero.mp c.utf8Size_pos
      simp [before, h, ih]

/-- Cutting at the size of a front part leaves what follows it. -/
@[simp]
theorem after_size (cs ds : List Char) : after (size cs) (cs ++ ds) = ds := by
  induction cs with
  | nil => cases ds <;> simp [after]
  | cons c cs ih =>
      have h : c.utf8Size ≠ 0 := Nat.pos_iff_ne_zero.mp c.utf8Size_pos
      simp [after, h, ih]

end StylePrune.Text
