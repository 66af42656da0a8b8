import CilWeaver.Text.CodePoints

/-!
Characters that join the ones after them and take fewer columns together than apart: the ligatures
of several scripts, skin tones, flags and pictures made of pictures.
-/

namespace CilWeaver.Text

def zeroWidthJoiner : Nat := 0x200D

/-- The columns of a code point that joins nothing. -/
def columnsAlone (n : Nat) : Nat :=
  if isAmong zeroWidthRanges n then 0
  else if n = 0x17D8 then 3
  else if isAmong wideRanges n then 2
  else 1

/-- What stands to the right of a place, as far as the character before it may join it. In the
letters with a flag the flag says that a joiner stands in front of them. -/
inductive Follower where
  | other
  | lineFeed
  /-- Arabic alef, which a lam before it takes in. -/
  | alef
  /-- Hebrew lamed, which forms a ligature with alef. -/
  | lamed (joined : Bool)
  /-- A Khmer letter that is written below the one before it after a coeng. -/
  | belowLetter
  /-- Buginese ya. -/
  | ya (joined : Bool)
  /-- The Buginese vowel sign i, a joiner and ya. -/
  | vowelYa
  | tifinagh (joined : Bool)
  /-- The Tifinagh consonant joiner and a consonant. -/
  | joinerTifinagh
  /-- The second half of a Lisu tone letter. -/
  | lisuTone
  /-- The Old Turkic vowel i. -/
  | orkhonI (joined : Bool)
  /-- The Kirat Rai vowel sign e. -/
  | vowelE
  /-- The Kirat Rai vowel sign ai, in one character or as e and e. -/
  | vowelAi
  | tone
  | flagLetter
  | flagLetters
  | picture
  /-- A joiner and a picture. -/
  | joinedPicture
  /-- An enclosing keycap, a joiner and a picture. -/
  | joinedKeycap
  /-- A flag letter, a joiner and a picture. -/
  | joinedFlagLetter
  /-- Two flag letters or another even number, a joiner and a picture. -/
  | joinedFlags
  /-- Three flag letters or a larger odd number, a joiner and a picture. -/
  | joinedFlagsLetter
  /-- Tag letters after tag digits, the end of the tag, a joiner and a picture. -/
  | joinedTag (digits letters : Nat)
deriving DecidableEq

namespace Follower

/-- Letters that stay joined when a selector comes between. -/
def isLetter : Follower → Bool
  | alef | lamed _ | belowLetter | ya _ | vowelYa | tifinagh _ | joinerTifinagh | lisuTone
  | orkhonI _ => true
  | _ => false

/-- Letters that stay joined when a joiner or a mark that is not shown comes between. -/
def skipsHidden : Follower → Bool
  | alef => false
  | f => f.isLetter

/-- Pictures that take in the picture before them. -/
def isJoined : Follower → Bool
  | joinedPicture | joinedKeycap => true
  | _ => false

def withJoiner : Follower → Follower
  | lamed _ => lamed true
  | ya _ => ya true
  | tifinagh _ => tifinagh true
  | orkhonI _ => orkhonI true
  | f => f

end Follower

def isAlef (n : Nat) : Bool :=
  isAmong [(0x622, 0x623), (0x625, 0x625), (0x627, 0x627), (0x671, 0x673), (0x675, 0x675),
    (0x773, 0x774), (0x870, 0x882)] n

def isLam (n : Nat) : Bool :=
  isAmong [(0x644, 0x644), (0x6B5, 0x6B8), (0x76A, 0x76A), (0x8A6, 0x8A6), (0x8C7, 0x8C7)] n

/-- Marks that leave an Arabic letter joined to the next one. -/
def keepsJoined (n : Nat) : Bool := columnsAlone n = 0 && !isAmong partingRanges n

def isKhmerBelowLetter (n : Nat) : Bool :=
  isAmong [(0x1780, 0x1782), (0x1784, 0x1787), (0x1789, 0x178C), (0x178E, 0x1793),
    (0x1795, 0x1798), (0x179B, 0x179D), (0x17A0, 0x17A0), (0x17A2, 0x17A2), (0x17A7, 0x17A7),
    (0x17AB, 0x17AC), (0x17AF, 0x17AF)] n

def isTifinaghConsonant (n : Nat) : Bool := isAmong [(0x2D31, 0x2D65), (0x2D6F, 0x2D6F)] n

/-- Marks that are never shown. -/
def isHiddenMark (n : Nat) : Bool :=
  isAmong [(0x34F, 0x34F), (0x17B4, 0x17B5), (0x180B, 0x180D), (0x180F, 0x180F), (0xFE00, 0xFE0F),
    (0xE0100, 0xE01EF)] n

/-- What a character is to the one before it. -/
def Follower.of (n : Nat) : Follower :=
  if n = 0xA then lineFeed
  else if n ≤ 0xA0 then other
  else if isAlef n then alef
  else if n = 0x5DC then lamed false
  else if isKhmerBelowLetter n then belowLetter
  else if n = 0x1A10 then ya false
  else if isTifinaghConsonant n then tifinagh false
  else if 0xA4FC ≤ n && n ≤ 0xA4FD then lisuTone
  else if n = 0x10C03 then orkhonI false
  else if n = 0x16D67 then vowelE
  else if n = 0x16D68 then vowelAi
  else if isTone n then tone
  else if isFlagLetter n then flagLetter
  else if isPicture n then picture
  else other

/-- The columns that a character adds to those of the follower that it joins, fewer than none where
it takes a column back, and what the two are to the character before them. -/
def Follower.join? (n : Nat) : Follower → Option (Int × Follower)
  | alef =>
    if isLam n then some (0, other) else if keepsJoined n then some (0, alef) else none
  | lamed true => if n = 0x5D0 then some (0, other) else none
  | belowLetter => if n = 0x17D2 then some (-1, other) else none
  | ya true => if n = 0x1A17 then some (0, vowelYa) else none
  | vowelYa => if n = 0x1A15 then some (0, other) else none
  | tifinagh joined =>
    if n = 0x2D7F then some (1, joinerTifinagh)
    else if joined && isTifinaghConsonant n then some (0, other)
    else none
  | joinerTifinagh => if isTifinaghConsonant n then some (-1, other) else none
  | lisuTone => if 0xA4F8 ≤ n && n ≤ 0xA4FB then some (0, other) else none
  | orkhonI true => if n = 0x10C32 then some (0, other) else none
  | vowelE =>
    if n = 0x16D63 || n = 0x16D69 then some (0, other)
    else if n = 0x16D67 then some (0, vowelAi)
    else if n = 0x16D68 then some (1, vowelE)
    else none
  | vowelAi => if n = 0x16D63 then some (0, other) else none
  | tone =>
    if takesTone n then some (0, picture)
    else if n = zeroWidthJoiner then some (0, joinedPicture)
    else none
  | flagLetter => if isFlagLetter n then some (1, flagLetters) else none
  | flagLetters =>
    if isFlagLetter n then some (1, flagLetters)
    else if n = zeroWidthJoiner then some (0, joinedPicture)
    else none
  | picture => if n = zeroWidthJoiner then some (0, joinedPicture) else none
  | joinedPicture =>
    if n = 0x20E3 then some (0, joinedKeycap)
    else if isFlagLetter n then some (1, joinedFlagLetter)
    else if isTone n then some (0, tone)
    else if n = 0xE007F then some (0, joinedTag 0 0)
    else if isPicture n then some (0, picture)
    else none
  | joinedFlagLetter => if isFlagLetter n then some (-1, joinedFlags) else none
  | joinedFlags =>
    if isFlagLetter n then some (3, joinedFlagsLetter)
    else if n = zeroWidthJoiner then some (0, joinedPicture)
    else none
  | joinedFlagsLetter =>
    if isFlagLetter n then some (-1, joinedFlags)
    else if n = zeroWidthJoiner then some (0, joinedPicture)
    else none
  | joinedTag digits letters =>
    if isTagLetter n && digits = 0 && letters < 6 then some (0, joinedTag 0 (letters + 1))
    else if isTagDigit n && digits < 3 && letters ≤ 4 then some (0, joinedTag (digits + 1) letters)
    else if n = 0x1F3F4 && (digits = 3 || digits = 0 && 3 ≤ letters) then some (0, picture)
    else none
  | _ => none

end CilWeaver.Text
