import RuleDesk.Text.Emoji
import RuleDesk.Text.Ligature

/-!
# Display widths

How many columns a text takes on a terminal. The characters are placed from the
last to the first. What a character adds depends on what follows it: emoji that
are joined take two columns together, letters that merge take one, and a selector
changes the form of the character before it. So each step hands the next one a
`Context`, which says what the character to the left will meet.
-/
namespace RuleDesk.Display

/-- What stands behind a character, as far as that changes its columns. A
constructor with `joined` says whether a joiner stands before the letter. -/
inductive Follower
  /-- Nothing, or a character that changes nothing. -/
  | other
  /-- An emoji together with all that is joined to it. -/
  | emoji
  | skinTone
  /-- One regional letter. -/
  | flagLetter
  /-- Two or more regional letters. -/
  | flagLetters
  /-- A joiner and an emoji. -/
  | joinedEmoji
  /-- The frame of a keycap, a joiner and an emoji. -/
  | joinedKeycap
  /-- One regional letter, a joiner and an emoji. -/
  | joinedFlagLetter
  /-- Regional letters in pairs, a joiner and an emoji. -/
  | joinedFlags
  /-- Regional letters, one of them left over, a joiner and an emoji. -/
  | joinedFlagsAndLetter
  /-- So many tag letters, the end of the tag, a joiner and an emoji. -/
  | tagLetters (count : Nat)
  /-- So many tag digits, and then as for letters. -/
  | tagDigits (count : Nat)
  /-- An Arabic alef. -/
  | alef
  /-- The Hebrew lamed. -/
  | lamed (joined : Bool)
  /-- The Buginese ya. -/
  | ya (joined : Bool)
  /-- The Buginese vowel sign i, a joiner and a ya. -/
  | vowelYa
  | tifinagh (joined : Bool)
  /-- The Tifinagh joiner and a letter. -/
  | boundTifinagh
  | lisuTone
  /-- The Old Turkic letter i of the Orkhon inscriptions. -/
  | orkhonI (joined : Bool)
  /-- A Khmer letter that can be written below another one. -/
  | khmer
  /-- The Kirat Rai vowel sign e. -/
  | kiratE
  /-- The Kirat Rai vowel sign ai. -/
  | kiratAi
deriving DecidableEq, Repr

namespace Follower

/-- Letters of scripts other than Arabic that merge with the letter before them. -/
def merges : Follower → Bool
  | lamed _ | ya _ | vowelYa | tifinagh _ | boundTifinagh | lisuTone | orkhonI _ | khmer => true
  | _ => false

/-- The same letter behind a joiner. -/
def join : Follower → Follower
  | lamed _ => lamed true
  | ya _ => ya true
  | tifinagh _ => tifinagh true
  | orkhonI _ => orkhonI true
  | f => f

/-- A joined emoji takes no room of its own. -/
def isJoined (f : Follower) : Bool :=
  f = joinedEmoji || f = joinedKeycap

/-- What a character is for the one before it. -/
def ofChar (c : Char) : Follower :=
  if pictures.has c then emoji
  else if isSkinTone c then skinTone
  else if isFlagLetter c then flagLetter
  else if alefs.has c then alef
  else if c = '\u05DC' then lamed false
  else if khmerLetters.has c then khmer
  else if c = '\u1A10' then ya false
  else if tifinaghLetters.has c then tifinagh false
  else if isLisuSecondTone c then lisuTone
  else if c.toNat = 0x10C03 then orkhonI false
  else if c.toNat = 0x16D67 then kiratE
  else if c.toNat = 0x16D68 then kiratAi
  else other

end Follower

/-- What a character meets on its right: a follower, and before that the
selectors that ask for a form of the character. -/
structure Context where
  follower : Follower
  asEmoji : Bool
  asText : Bool
  asWide : Bool
deriving DecidableEq, Repr

namespace Context

def behind (f : Follower) : Context :=
  ⟨f, false, false, false⟩

/-- A selector parts a character from its follower, but it does not part letters
that merge. -/
def atSelector (x : Context) : Context :=
  if x.follower.merges || x.follower = .alef then x else behind .other

/-- The emoji selector may also stand within joined emoji. -/
def atEmojiSelector (x : Context) : Context :=
  if x.follower.isJoined then x else x.atSelector

/-- The context for a character that has no form as an emoji. -/
def withoutEmoji (x : Context) : Context :=
  if x.asEmoji then { x.atSelector with asEmoji := false } else x

end Context

/-- The columns that a character adds, and what the one before it meets. The
columns are negative where letters that have been counted turn out to merge. -/
structure Placed where
  columns : Int
  context : Context
deriving DecidableEq, Repr

/-- A character that does not depend on what follows it. -/
def placeAlone (c : Char) : Placed :=
  ⟨charWidth c, .behind (.ofChar c)⟩

/-- A character that takes so many columns together with its follower, which are
for the one before it the follower `f`. -/
def placeAs (columns : Int) (f : Follower) : Placed :=
  ⟨columns, .behind f⟩

def isJoiner (c : Char) : Bool :=
  c = '\u200D'

/-- A character before a joiner and an emoji. -/
def placeBeforeJoiner (c : Char) : Placed :=
  if c = '\u20E3' then placeAs 0 .joinedKeycap
  else if isFlagLetter c then placeAs 1 .joinedFlagLetter
  else if isSkinTone c then placeAs 0 .skinTone
  else if c.toNat = 0xE007F then placeAs 0 (.tagLetters 0)
  else if pictures.has c then placeAs 0 .emoji
  else placeAlone c

/-- A character within the tag of a flag: up to six letters, or up to four of
them and three digits before those, with the black flag in front. -/
def placeBeforeTag (letters digits : Nat) (c : Char) : Placed :=
  if digits = 0 && letters < 6 && isTagLetter c then placeAs 0 (.tagLetters (letters + 1))
  else if letters ≤ 4 && digits < 3 && isTagDigit c then placeAs 0 (.tagDigits (digits + 1))
  else if (digits = 3 || (digits = 0 && 3 ≤ letters)) && c.toNat = 0x1F3F4 then placeAs 0 .emoji
  else placeAlone c

/-- A character before a letter that may merge with it. -/
def placeBeforeLetter (c : Char) : Follower → Placed
  | .lamed true => if c = '\u05D0' then placeAs 0 .other else placeAlone c
  | .ya true => if c = '\u1A17' then placeAs 0 .vowelYa else placeAlone c
  | .vowelYa => if c = '\u1A15' then placeAs 0 .other else placeAlone c
  | .tifinagh joined =>
    if c = '\u2D7F' then placeAs 1 .boundTifinagh
    else if joined && tifinaghLetters.has c then placeAs 0 .other
    else placeAlone c
  | .boundTifinagh => if tifinaghLetters.has c then placeAs (-1) .other else placeAlone c
  | .lisuTone => if isLisuFirstTone c then placeAs 0 .other else placeAlone c
  | .orkhonI true => if c.toNat = 0x10C32 then placeAs 0 .other else placeAlone c
  | .khmer => if c = '\u17D2' then placeAs (-1) .other else placeAlone c
  | _ => placeAlone c

/-- A character before a follower, with no selector between them. -/
def placeBefore (c : Char) (f : Follower) : Placed :=
  if f.merges && isJoiner c then placeAs 0 f.join
  else if f.merges && shapelessMarks.has c then placeAs 0 f
  else
    match f with
    | .alef =>
      if lams.has c then placeAs 0 .other
      else if isTransparent c then placeAs 0 .alef
      else placeAlone c
    | .skinTone =>
      if toneBases.has c then placeAs 0 .emoji
      else if isJoiner c then placeAs 0 .joinedEmoji
      else placeAlone c
    | .emoji => if isJoiner c then placeAs 0 .joinedEmoji else placeAlone c
    | .flagLetter => if isFlagLetter c then placeAs 1 .flagLetters else placeAlone c
    | .flagLetters =>
      if isFlagLetter c then placeAs 1 .flagLetters
      else if isJoiner c then placeAs 0 .joinedEmoji
      else placeAlone c
    | .joinedEmoji => placeBeforeJoiner c
    | .joinedFlagLetter => if isFlagLetter c then placeAs (-1) .joinedFlags else placeAlone c
    | .joinedFlags =>
      if isFlagLetter c then placeAs 3 .joinedFlagsAndLetter
      else if isJoiner c then placeAs 0 .joinedEmoji
      else placeAlone c
    | .joinedFlagsAndLetter =>
      if isFlagLetter c then placeAs (-1) .joinedFlags
      else if isJoiner c then placeAs 0 .joinedEmoji
      else placeAlone c
    | .tagLetters n => placeBeforeTag n 0 c
    | .tagDigits n => placeBeforeTag 0 n c
    | .kiratE =>
      if c.toNat = 0x16D63 || c.toNat = 0x16D69 then placeAs 0 .other
      else if c.toNat = 0x16D67 then placeAs 0 .kiratAi
      else if c.toNat = 0x16D68 then placeAs 1 .kiratE
      else placeAlone c
    | .kiratAi => if c.toNat = 0x16D63 then placeAs 0 .other else placeAlone c
    | f => placeBeforeLetter c f

/-- The quotation marks that a selector makes as wide as an ideograph. -/
def isCurlyQuote (c : Char) : Bool :=
  c = '\u2018' || c = '\u2019' || c = '\u201C' || c = '\u201D'

/-- A character in a context that does not ask for its form as an emoji. A
selector waits for the character before it. -/
def placeUnselected (c : Char) (x : Context) : Placed :=
  if c = '\uFE0F' then ⟨0, { x.atEmojiSelector with asEmoji := true }⟩
  else if c = '\uFE0E' then ⟨0, { x.atSelector with asText := true }⟩
  else if c = '\uFE01' then ⟨0, { x.atSelector with asWide := true }⟩
  else if x.asText && textForms.has c then placeAs 1 .other
  else if x.asWide && isCurlyQuote c then placeAs 2 .other
  else placeBefore c x.follower

/-- A character in its context. -/
def place (c : Char) (x : Context) : Placed :=
  if x.asEmoji && hasEmojiForm c then placeAs (if x.follower.isJoined then 0 else 2) .emoji
  else placeUnselected c x.withoutEmoji

/-- A character in front of a text that has been placed. -/
def Placed.extend (c : Char) (rest : Placed) : Placed :=
  let first := place c rest.context
  ⟨first.columns + rest.columns, first.context⟩

/-- The columns of a text. -/
def width (s : String) : Nat :=
  (s.toList.foldr Placed.extend (placeAs 0 .other)).columns.toNat

end RuleDesk.Display
