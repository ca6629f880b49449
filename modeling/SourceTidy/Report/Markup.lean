import SourceTidy.Text.CaseFold
import SourceTidy.Text.Category

/-!
# Markup

A title may hold tags between brackets: `[bold]` asks for a style, `[/bold]` ends it, and `[/]` ends the latest one. A
bracket that starts no tag stands for itself, and so does a tag after a backslash. `Markup.plain` is what is left of a
title without its tags; it fails on a tag that ends what was never asked for.
-/

namespace SourceTidy.Report

/-- A tag that ends nothing. -/
inductive MarkupError where
  /-- No style of this name is open. -/
  | unmatched (tag : Text) (position : Nat)
  /-- No style is open at all. -/
  | nothingToClose (position : Nat)
  deriving DecidableEq, Repr

/-- The wording of the failure. -/
def MarkupError.message : MarkupError → Text
  | unmatched tag position =>
    "closing tag '" ++ tag ++ "' at position " ++ Text.ofNat position ++ " doesn't match any open tag"
  | nothingToClose position => "closing tag '[/]' at position " ++ Text.ofNat position ++ " has nothing to close"

namespace Markup

/-! ## Names of styles -/

/-- What can be asked for letters: the full name first, then its short forms. -/
def attributes : List (List Text) := [
  ["bold", "b"], ["dim", "d"], ["italic", "i"], ["underline", "u"], ["blink"], ["blink2"], ["reverse", "r"],
  ["conceal", "c"], ["strike", "s"], ["underline2", "uu"], ["frame"], ["encircle"], ["overline", "o"]]

/-- The full name of an attribute. -/
def attribute? (word : Text) : Option Text := (attributes.find? (·.contains word)).bind List.head?

/-- The names of colours. -/
def colours : List Text :=
  ([
    "black", "red", "green", "yellow", "blue", "magenta", "cyan", "white", "bright_black", "bright_red",
    "bright_green", "bright_yellow", "bright_blue", "bright_magenta", "bright_cyan", "bright_white", "grey0",
    "gray0", "navy_blue", "dark_blue", "blue3", "blue1", "dark_green", "deep_sky_blue4", "dodger_blue3",
    "dodger_blue2", "green4", "spring_green4", "turquoise4", "deep_sky_blue3", "dodger_blue1", "green3",
    "spring_green3", "dark_cyan", "light_sea_green", "deep_sky_blue2", "deep_sky_blue1", "spring_green2", "cyan3",
    "dark_turquoise", "turquoise2", "green1", "spring_green1", "medium_spring_green", "cyan2", "cyan1", "dark_red",
    "deep_pink4", "purple4", "purple3", "blue_violet", "orange4", "grey37", "gray37", "medium_purple4",
    "slate_blue3", "royal_blue1", "chartreuse4", "dark_sea_green4", "pale_turquoise4", "steel_blue", "steel_blue3",
    "cornflower_blue", "chartreuse3", "cadet_blue", "sky_blue3", "steel_blue1", "pale_green3", "sea_green3",
    "aquamarine3", "medium_turquoise", "chartreuse2", "sea_green2", "sea_green1", "aquamarine1",
    "dark_slate_gray2", "dark_magenta", "dark_violet", "purple", "light_pink4", "plum4", "medium_purple3",
    "slate_blue1", "yellow4", "wheat4", "grey53", "gray53", "light_slate_grey", "light_slate_gray",
    "medium_purple", "light_slate_blue", "dark_olive_green3", "dark_sea_green", "light_sky_blue3", "sky_blue2",
    "dark_sea_green3", "dark_slate_gray3", "sky_blue1", "chartreuse1", "light_green", "pale_green1",
    "dark_slate_gray1", "red3", "medium_violet_red", "magenta3", "dark_orange3", "indian_red", "hot_pink3",
    "medium_orchid3", "medium_orchid", "medium_purple2", "dark_goldenrod", "light_salmon3", "rosy_brown", "grey63",
    "gray63", "medium_purple1", "gold3", "dark_khaki", "navajo_white3", "grey69", "gray69", "light_steel_blue3",
    "light_steel_blue", "yellow3", "dark_sea_green2", "light_cyan3", "light_sky_blue1", "green_yellow",
    "dark_olive_green2", "dark_sea_green1", "pale_turquoise1", "deep_pink3", "magenta2", "hot_pink2", "orchid",
    "medium_orchid1", "orange3", "light_pink3", "pink3", "plum3", "violet", "light_goldenrod3", "tan",
    "misty_rose3", "thistle3", "plum2", "khaki3", "light_goldenrod2", "light_yellow3", "grey84", "gray84",
    "light_steel_blue1", "yellow2", "dark_olive_green1", "honeydew2", "light_cyan1", "red1", "deep_pink2",
    "deep_pink1", "magenta1", "orange_red1", "indian_red1", "hot_pink", "dark_orange", "salmon1", "light_coral",
    "pale_violet_red1", "orchid2", "orchid1", "orange1", "sandy_brown", "light_salmon1", "light_pink1", "pink1",
    "plum1", "gold1", "navajo_white1", "misty_rose1", "thistle1", "yellow1", "light_goldenrod1", "khaki1",
    "wheat1", "cornsilk1", "grey100", "gray100", "grey3", "gray3", "grey7", "gray7", "grey11", "gray11", "grey15",
    "gray15", "grey19", "gray19", "grey23", "gray23", "grey27", "gray27", "grey30", "gray30", "grey35", "gray35",
    "grey39", "gray39", "grey42", "gray42", "grey46", "gray46", "grey50", "gray50", "grey54", "gray54", "grey58",
    "gray58", "grey62", "gray62", "grey66", "gray66", "grey70", "gray70", "grey74", "gray74", "grey78", "gray78",
    "grey82", "gray82", "grey85", "gray85", "grey89", "gray89", "grey93", "gray93", "default"] : List String).map Text.ofString

/-- Whether a word names a colour, or tells one by its parts. -/
def isColour (word : Text) : Bool :=
  colours.contains word
    || (word.head? == some ('#' : CodePoint) && word.length == 7 && word.tail.all CodePoint.isHexDigit)

/-- What a style consists of. -/
structure Look where
  attributes : List (Text × Bool) := []
  colour : Option Text := none
  ground : Option Text := none
  link : Option Text := none

/-- A style with what a single word asks for. -/
def Look.take (look : Look) (word : Text) : Option Look :=
  match attribute? word with
  | some name => some { look with attributes := (name, true) :: look.attributes }
  | none => if isColour word then some { look with colour := some word } else none

/-- A style with what some words ask for; the later of two contrary words counts. -/
def Look.read (look : Look) : List Text → Option Look
  | [] => some look
  | [word] => look.take (word.map CodePoint.lower)
  | word :: next :: rest =>
    let word := word.map CodePoint.lower
    let colour := next.map CodePoint.lower
    if word = Text.ofString "on" then
      if isColour colour then { look with ground := some colour }.read rest else none
    else if word = Text.ofString "not" then
      (attribute? next).bind fun name => { look with attributes := (name, false) :: look.attributes }.read rest
    else if word = Text.ofString "link" then { look with link := some next }.read rest
    else (look.take word).bind (·.read (next :: rest))

/-- The parts of a style in a fixed order. -/
def Look.shown (look : Look) : Text :=
  let settings := Markup.attributes.filterMap fun names => do
    let name ← names.head?
    let (_, isOn) ← look.attributes.find? (·.1 == name)
    return if isOn then name else "not " ++ name
  let parts := settings ++ look.colour.toList ++ (look.ground.toList.flatMap fun c => [Text.ofString "on", c])
    ++ (look.link.toList.flatMap fun target => [Text.ofString "link", target])
  if parts.isEmpty then "none" else Text.join " " parts

/-- The words of a text between its blanks. -/
def words (t : Text) : List Text :=
  (t.foldr (fun (c : CodePoint) ws => if c.isBlank then [] :: ws else (c :: ws.headD []) :: ws.tail) [[]]).filter (!·.isEmpty)

/-- The name by which a style is closed: names of the same style are the same, and a name of no style is taken as it is
but for case. -/
def styleName (name : Text) : Text :=
  match Look.read {} (if name.strip = Text.ofString "none" then [] else words name) with
  | some look => look.shown
  | none => name.strip.map CodePoint.lower

/-! ## Tags -/

/-- A part of a text with markup. -/
inductive Part where
  | text (t : Text)
  /-- What stands between the brackets of a tag, and the offset of the opening one, backslashes before it left out. -/
  | tag (position : Nat) (content : Text)

/-- Whether a code point starts the contents of a tag. -/
def startsTag (c : CodePoint) : Bool := c.within 0x61 0x7A || c == '#' || c == '/' || c == '@'

/-- What stands between brackets that make a tag at the head of a text. -/
def tag? : Text → Option Text
  | [] => none
  | c :: rest =>
    let content := rest.takeWhile fun d : CodePoint => d != '[' && d != ']'
    if c = '[' && content.head?.any startsTag && (rest.drop content.length).head? == some (']' : CodePoint) then
      some content
    else none

/-- The parts of a text that starts at an offset. Of two backslashes before a tag one is left; a single one makes the
tag stand for itself. -/
def partsFrom (offset : Nat) : Text → List Part
  | [] => []
  | c :: rest =>
    let t := c :: rest
    let escapes := (t.takeWhile fun d : CodePoint => d == '\\').length
    match tag? (t.drop escapes) with
    | some content =>
      let length := escapes + content.length + 2
      .text (List.replicate (escapes / 2) '\\')
        :: (if escapes % 2 = 1 then .text ("[" ++ content ++ "]") else .tag (offset + escapes) content)
        :: partsFrom (offset + length) (t.drop length)
    | none =>
      let kept := if c = '\\' && rest.head? == some ('[' : CodePoint) then [] else [c]
      .text kept :: partsFrom (offset + 1) rest
termination_by t => t.length
decreasing_by
  · rw [List.length_drop]
    exact Nat.sub_lt (Nat.succ_pos _) (Nat.succ_pos _)
  · exact Nat.lt_succ_self _

/-- What is left of some parts without their tags, while styles are open. -/
def plainAfter (opened : List Text) : List Part → Except MarkupError Text
  | [] => .ok []
  | .text t :: rest => (plainAfter opened rest).map (t ++ ·)
  | .tag position content :: rest =>
    let written := content.takeWhile fun c : CodePoint => c != '='
    if written.head? == some ('/' : CodePoint) then
      let name := Text.strip written.tail
      if name.isEmpty then
        match opened with
        | [] => .error (.nothingToClose position)
        | _ :: below => plainAfter below rest
      else if opened.contains (styleName name) then plainAfter (opened.erase (styleName name)) rest
      else .error (.unmatched ("[" ++ content ++ "]") position)
    else plainAfter (styleName written :: opened) rest

/-- A text without its tags. -/
def plain (t : Text) : Except MarkupError Text := plainAfter [] (partsFrom 0 t)

end Markup
end SourceTidy.Report
