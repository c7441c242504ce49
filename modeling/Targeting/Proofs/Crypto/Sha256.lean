/-
# Hashing with lists

The next word of a schedule is made of four of the sixteen words before it. Where the latest word
stands first in a list, these are found at fixed places near its head, whatever the length of the
schedule, so a hash is computed in fewer steps. It is the same hash, since every block that is mixed
into the state has sixteen words.
-/

import Targeting.Crypto.Sha256

namespace Targeting.Sha256

/-- The next word of a schedule whose latest word stands first. -/
def wordAfter (latest : List UInt32) : UInt32 :=
  let ago := fun (back : Nat) => latest[back]?.getD 0
  let w15 := ago 14
  let w2 := ago 1
  let s0 := rotate w15 7 ^^^ rotate w15 18 ^^^ (w15 >>> 3)
  let s1 := rotate w2 17 ^^^ rotate w2 19 ^^^ (w2 >>> 10)
  ago 15 + s0 + ago 6 + s1

/-- A schedule whose latest word stands first, and as many more words as asked for. -/
def scheduleAfter (latest : List UInt32) : Nat → List UInt32
  | 0 => latest
  | more + 1 => scheduleAfter (wordAfter latest :: latest) more

theorem getElem?_size_sub {latest : List UInt32} {back : Nat} (h : back < latest.length) :
    latest.reverse.toArray[latest.reverse.toArray.size - (back + 1)]? = latest[back]? := by
  rw [List.size_toArray, List.getElem?_toArray, List.length_reverse,
    List.getElem?_reverse (by omega)]
  congr 1
  omega

theorem nextWord_eq {latest : List UInt32} (h : 16 ≤ latest.length) :
    nextWord latest.reverse.toArray = wordAfter latest := by
  have ago (back : Nat) (hback : back < 16) :
      latest.reverse.toArray[latest.reverse.toArray.size - (back + 1)]?.getD 0 =
        latest[back]?.getD 0 :=
    congrArg (·.getD 0) (getElem?_size_sub (Nat.lt_of_lt_of_le hback h))
  simp only [nextWord, wordAfter, ← ago 14 (by decide), ← ago 1 (by decide), ← ago 15 (by decide),
    ← ago 6 (by decide)]

theorem schedule_eq {latest : List UInt32} (h : 16 ≤ latest.length) (more : Nat) :
    (schedule latest.reverse.toArray more).toList = (scheduleAfter latest more).reverse := by
  induction more generalizing latest with
  | zero => rfl
  | succ more ih =>
      rw [schedule, nextWord_eq h, List.push_toArray, ← List.reverse_cons, ih (by simp; omega),
        scheduleAfter]

/-- A block of sixteen words is mixed into the state. -/
def compressList (s : State) (block : List UInt32) : State :=
  let w := (scheduleAfter block.reverse 48).reverse
  let t := (constants.zip w).foldl (fun t (constant, w) => round t constant w) s
  ⟨s.a + t.a, s.b + t.b, s.c + t.c, s.d + t.d, s.e + t.e, s.f + t.f, s.g + t.g, s.h + t.h⟩

theorem compress_eq {block : List UInt32} (h : 16 ≤ block.length) (s : State) :
    compress s block = compressList s block := by
  have hlength : 16 ≤ block.reverse.length := by rwa [List.length_reverse]
  have hschedule := schedule_eq hlength 48
  rw [List.reverse_reverse] at hschedule
  rw [compress, hschedule, compressList]

/-- Whole blocks of words are mixed into the state. -/
def absorbList (s : State) : Nat → List UInt32 → State
  | 0, _ => s
  | blocks + 1, words => absorbList (compressList s (words.take 16)) blocks (words.drop 16)

theorem absorb_eq {blocks : Nat} {words : List UInt32} (h : 16 * blocks ≤ words.length)
    (s : State) : absorb s blocks words = absorbList s blocks words := by
  induction blocks generalizing s words with
  | zero => rfl
  | succ blocks ih =>
      rw [absorb, compress_eq (by rw [List.length_take]; omega), ih (by rw [List.length_drop]; omega),
        absorbList]

/-- The 32 bytes of the hash, from schedules in lists. -/
def digestList (message : List UInt8) : List UInt8 :=
  let words := words (pad message)
  let s := absorbList initial (words.length / 16) words
  [s.a, s.b, s.c, s.d, s.e, s.f, s.g, s.h].flatMap bytes

theorem digest_eq : digest = digestList := by
  funext message
  rw [digest, absorb_eq (Nat.mul_div_le _ 16), digestList]

end Targeting.Sha256
