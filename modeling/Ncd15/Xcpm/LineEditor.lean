import Ncd15.Fat.Directory
import Ncd15.Library.Watched

/-!
# The line editor of the command interpreter

`read_line` of `ccpmain.c` with the history ring, the completion of commands and of file
names, and the keys that each move text in a line of 80 characters.  What is printed on the
console is left out, and with it the second Tab that lists the matches: no buffer depends on it.
-/

namespace Ncd15.Xcpm

open Ncd15.Library

section Strings

/-- The characters of a string literal. -/
def ascii (s : String) : List UInt8 := s.toList.map fun c => UInt8.ofNat c.toNat

def isSpace (c : UInt8) : Bool := c = 32 || c = 9

/-- `toupper_`. -/
def toUpper (c : UInt8) : UInt8 := if 97 ≤ c ∧ c ≤ 122 then c - 32 else c

/-- `strieqn`, on strings that end with a NUL behind their characters. -/
def strieqn : Nat → List UInt8 → List UInt8 → Bool
  | 0, _, _ => true
  | n + 1, a, b =>
      let ca := toUpper (a.headD 0)
      let cb := toUpper (b.headD 0)
      if ca = 0 ∨ cb = 0 then ca = cb
      else if ca ≠ cb then false
      else strieqn n a.tail b.tail

/-- `contains_`. -/
def contains (hay needle : List UInt8) : Bool :=
  needle = [] || (List.range (hay.length + 1 - needle.length)).any fun i =>
    strieqn needle.length (hay.drop i) needle

/-- `while (j > 0 && p(j - 1)) j--`. -/
def scanBack (p : Nat → Bool) : Nat → Nat
  | 0 => 0
  | j + 1 => if p j then scanBack p j else j + 1

/-- `while (j < stop && p(j)) j++`, with `stop - j` in front. -/
def scanOn (p : Nat → Bool) : Nat → Nat → Nat
  | 0, j => j
  | left + 1, j => if p j then scanOn p left (j + 1) else j

/-- The digits of `parse_num` from some value on. -/
def parseDigits (hex : Bool) : Nat → Nat → List UInt8 → Option Nat
  | n, v, [] => if n = 0 then none else some v
  | n, v, c :: rest =>
      let c := (toUpper c).toNat
      let digit := if 48 ≤ c ∧ c ≤ 57 then some (c - 48)
        else if hex ∧ 65 ≤ c ∧ c ≤ 70 then some (c - 65 + 10) else none
      match digit with
      | none => none
      | some d =>
          if 10 < n + 1 then none
          else parseDigits hex (n + 1) ((if hex then v * 16 + d else v * 10 + d) % 2 ^ 32) rest

def parseNum (s : List UInt8) : Option Nat :=
  match s with
  | 48 :: 120 :: rest => parseDigits true 0 0 rest
  | 48 :: 88 :: rest => parseDigits true 0 0 rest
  | s => parseDigits false 0 0 s

end Strings

section History

/-- `CCP_LINE_MAX`. -/
abbrev lineMax : Nat := 80

/-- `HISTORY_DEPTH`. -/
abbrev historyDepth : Nat := 8

instance : NeZero historyDepth := ⟨by decide⟩

/-- `if (n >= CCP_LINE_MAX) n = CCP_LINE_MAX - 1`. -/
def clamp (n : Nat) : Nat := if lineMax ≤ n then lineMax - 1 else n

theorem clamp_le (n : Nat) : clamp n ≤ 79 := by
  unfold clamp lineMax
  split <;> omega

/-- A row of `hist_buf`: a string with its NUL inside. -/
structure HistRow where
  text : List UInt8
  length_lt : text.length < lineMax
  noNul : 0 ∉ text

/-- `hist_buf`, `hist_head` and `hist_count`. -/
structure History where
  rows : Fin historyDepth → HistRow
  head : Fin historyDepth
  count : Nat
  count_le : count ≤ historyDepth

/-- `history_get`; `none` stands for the null pointer. -/
def History.get (h : History) (back : Nat) : Option (List UInt8) :=
  if back < 1 ∨ h.count < back then none
  else some (h.rows (Fin.ofNat historyDepth (h.head + historyDepth - back))).text

/-- The first entry from a back-index on that a test accepts. -/
def History.find (h : History) (accept : List UInt8 → Bool) (back : Nat) :
    Option (List UInt8) :=
  ((List.range' back (h.count + 1 - back)).filterMap h.get).find? accept

end History

section Completion

/-- The names of `builtins`. -/
def builtins : List (List UInt8) :=
  ["help", "?", "ver", "mem", "clear", "echo", "peek", "poke", "user", "history", "set",
    "prompt", "free", "uname", "expr", "seq", "factor", "printf", "true", "false", "yes",
    "test", "[", "crc32", "hexdump", "base64", "uuencode", "uudecode", "stty", "srec", "nano",
    "edit", "mount", "ls", "cat", "rm", "cp", "mv", "mkdir", "rmdir", "cd", "pwd", "source",
    "save", "load", "exit"].map ascii

/-- The result of a completion: 0, 1 or minus the number of matches, with the characters that
are stored in `out` in front of a NUL. -/
inductive Completion
  | none
  | one (out : List UInt8)
  | several (out : List UInt8)
  deriving DecidableEq

/-- `while (j < common && a[j] && same(a[j], b[j])) j++`. -/
def sharedLen (same : UInt8 → UInt8 → Bool) (common : Nat) (a b : List UInt8) : Nat :=
  scanOn (fun j => a.getD j 0 ≠ 0 && same (a.getD j 0) (b.getD j 0)) common 0

/-- `complete_command`. -/
def completeCommand (word : List UInt8) : Completion :=
  match builtins.filter fun name => strieqn word.length name word with
  | [] => .none
  | [first] => .one first
  | first :: rest =>
      let same (c c' : UInt8) : Bool := c' ≠ 0 && toUpper c = toUpper c'
      .several (first.take ((first :: rest).foldl
        (fun common name => sharedLen same common name first) first.length))

/-- The pattern of `complete_filename`: what has been typed, and `?` behind it. -/
def filePattern (word : List UInt8) : List UInt8 :=
  let base := word.takeWhile (· ≠ 46)
  let ext := (word.drop base.length).drop 1
  let padTo (width : Nat) (chars : List UInt8) : List UInt8 :=
    chars ++ List.replicate (width - chars.length) 63
  padTo 8 ((base.take 8).map toUpper) ++ padTo 3 ((ext.take 3).map toUpper)

/-- The `BASE.EXT` string that is built from a directory record. -/
def recordName (raw : List UInt8) : List UInt8 :=
  let base := (raw.take 8).takeWhile (· ≠ 32)
  let ext := (raw.drop 8).take 3
  if ext.any (· ≠ 32) then base ++ 46 :: ext.takeWhile (· ≠ 32) else base

/-- `complete_filename` in a directory of raw names: BDOS 17 and 18 deliver those that match
the pattern, in their order. -/
def completeFilename (directory : List (List UInt8)) (word : List UInt8) : Completion :=
  match (directory.filter (Fat.fatMatch83 · (filePattern word))).map recordName with
  | [] => .none
  | [first] => .one ((first.takeWhile (· ≠ 0)).take (lineMax - 1))
  | first :: rest =>
      let common := rest.foldl
        (fun common cand => sharedLen (fun c c' => c' = c) common cand first) first.length
      .several ((first.take common).take (lineMax - 1))

end Completion

section Keys

/-- The results of `read_key`: a character, or one of the `KEY_` codes. -/
inductive Key
  | char (c : UInt8)
  | up
  | down
  | left
  | right
  | home
  | last
  | del
  | wordLeft
  | wordRight
  | metaBackspace
  | f7
  | f8

/-- What `read_key` makes of the characters behind `ESC [ 1`. -/
def readOne : List UInt8 → Option (Key × List UInt8)
  | [] => none
  | 59 :: _ :: c :: rest =>
      some (if c = 67 then .wordRight else if c = 68 then .wordLeft
        else if c = 72 then .home else if c = 70 then .last else .char 0, rest)
  | [59] | [59, _] => none
  | 126 :: rest => some (.home, rest)
  | [56] | [57] => none
  | 56 :: c :: rest => some (if c = 126 then .f7 else .char 0, rest)
  | 57 :: c :: rest => some (if c = 126 then .f8 else .char 0, rest)
  | _ :: rest => some (.char 0, rest)

/-- A sequence that a tilde ends. -/
def readTilde (key : Key) : List UInt8 → Option (Key × List UInt8)
  | [] => none
  | c :: rest => some (if c = 126 then key else .char 0, rest)

/-- What `read_key` makes of the characters behind `ESC [` or `ESC O`. -/
def readSequence : List UInt8 → Option (Key × List UInt8)
  | [] => none
  | 65 :: rest => some (.up, rest)
  | 66 :: rest => some (.down, rest)
  | 67 :: rest => some (.right, rest)
  | 68 :: rest => some (.left, rest)
  | 72 :: rest => some (.home, rest)
  | 70 :: rest => some (.last, rest)
  | 49 :: rest => readOne rest
  | 51 :: rest => readTilde .del rest
  | 52 :: rest => readTilde .last rest
  | 53 :: rest | 54 :: rest | 50 :: rest => readTilde (.char 0) rest
  | _ :: rest => some (.char 0, rest)

/-- `read_key` on the characters that come in; `none` while it waits for more. -/
def readKey : List UInt8 → Option (Key × List UInt8)
  | [] => none
  | 27 :: [] => none
  | 27 :: c :: rest =>
      if c = 127 ∨ c = 8 then some (.metaBackspace, rest)
      else if c ≠ 91 ∧ c ≠ 79 then some (.char 27, rest)
      else readSequence rest
  | c :: rest => some (.char c, rest)

/-- The number typed into `f7_popup`, `none` when it is left by ESC. -/
def popupDigits (digits : List UInt8) : List UInt8 → Option (Option (List UInt8) × List UInt8)
  | [] => none
  | c :: rest =>
      if c = 27 then some (none, rest)
      else if c = 13 ∨ c = 10 then some (some digits, rest)
      else if 48 ≤ c ∧ c ≤ 57 ∧ digits.length < 7 then popupDigits (digits ++ [c]) rest
      else if (c = 8 ∨ c = 127) ∧ 0 < digits.length then popupDigits digits.dropLast rest
      else popupDigits digits rest

/-- `f7_popup`: the characters stored in `out`, none of them where it returns 0. -/
def f7Popup (h : History) (input : List UInt8) : Option (List UInt8 × List UInt8) :=
  if h.count = 0 then some ([], input)
  else
    match popupDigits [] input with
    | none => none
    | some (none, rest) => some ([], rest)
    | some (some digits, rest) =>
        match parseNum digits with
        | none => some ([], rest)
        | some idx =>
            if idx < 1 ∨ h.count < idx then some ([], rest)
            else
              let picked := (h.get (h.count - idx + 1)).getD []
              some (picked.take (clamp picked.length), rest)

/-- `reverse_isearch` from a query, a back-index and a match on. -/
def isearchLoop (h : History) (query : List UInt8) (back : Nat) (found : Option (List UInt8)) :
    List UInt8 → Option (List UInt8 × List UInt8)
  | [] => none
  | c :: rest =>
      if c = 27 ∨ c = 7 then some ([], rest)
      else if c = 13 ∨ c = 10 then
        let picked := found.getD []
        some (picked.take (clamp picked.length), rest)
      else if c = 3 then some ([], rest)
      else
        let query' := if c = 8 ∨ c = 127 then query.dropLast
          else if 32 ≤ c ∧ c < 127 ∧ query.length < lineMax - 1 then query ++ [c] else query
        let back' := if c = 18 then back + 1
          else if 32 ≤ c ∧ c < 127 ∧ query.length < lineMax - 1 then 1 else back
        isearchLoop h query' back' (h.find (contains · query') back') rest

/-- `reverse_isearch`. -/
def reverseIsearch (h : History) (input : List UInt8) : Option (List UInt8 × List UInt8) :=
  isearchLoop h [] 1 none input

end Keys

section Editing

/-- The variables of `read_line`, with the line it edits and the kill buffer. -/
structure Editor where
  line : Watched lineMax
  len : Nat
  cursor : Nat
  histPos : Nat
  saved : Watched lineMax
  savedLen : Nat
  savedCursor : Nat
  kill : Watched lineMax
  killLen : Nat
  /-- Ghost: every write to `prefix_buf` and to `comp` so far has been inside. -/
  localsInside : Bool

namespace Editor

variable (e : Editor)

/-- The state before the first key, over whatever the buffers hold. -/
def start (line saved kill : Buffer lineMax) (killLen : Nat) : Editor :=
  { line := { buf := line, inside := true : Watched lineMax }.store 0 0
    len := 0, cursor := 0, histPos := 0
    saved := { buf := saved, inside := true }
    savedLen := 0, savedCursor := 0
    kill := { buf := kill, inside := true }
    killLen, localsInside := true }

/-- `line[i]`. -/
def char (i : Nat) : UInt8 := e.line.buf.get i

/-- `line[len] = 0`. -/
def terminate : Editor := { e with line := e.line.store e.len 0 }

/-- `line[i + to] = line[i + from]` for `i` in turn. -/
def move (dst src : Nat) (indices : List Nat) : Editor :=
  { e with line := e.line.storeAll (dst + ·) (fun w i => w.buf.get (src + i)) indices }

/-- The editor with another line and the cursor behind it. -/
def replace (text : List UInt8) : Editor :=
  { e with line := (e.line.copyIn 0 text).store text.length 0
           len := text.length, cursor := text.length }

/-- `kill_buf` with some characters of the line. -/
def keepKilled (src count : Nat) : Editor :=
  { e with kill := (e.kill.copyIn 0 ((List.range count).map fun i => e.char (src + i))).store
             count 0
           killLen := count }

/-- Ctrl-H and DEL on Unix terminals. -/
def backspace : Editor :=
  if 0 < e.cursor then
    { e.move (e.cursor - 1) e.cursor (List.range (e.len - e.cursor)) with
      len := e.len - 1, cursor := e.cursor - 1 }.terminate
  else e

def deleteChar : Editor :=
  if e.cursor < e.len then
    { e.move e.cursor (e.cursor + 1) (List.range (e.len - 1 - e.cursor)) with
      len := e.len - 1 }.terminate
  else e

/-- Ctrl-K. -/
def killToEnd : Editor :=
  if e.cursor < e.len then
    { e.keepKilled e.cursor (e.len - e.cursor) with len := e.cursor }.terminate
  else e

/-- Ctrl-U. -/
def killToStart : Editor :=
  if 0 < e.cursor then
    { (e.keepKilled 0 e.cursor).move 0 e.cursor (List.range (e.len - e.cursor)) with
      len := e.len - e.cursor, cursor := 0 }.terminate
  else e

/-- The start of the word in front of the cursor. -/
def wordStart : Nat :=
  scanBack (fun j => !isSpace (e.char j)) (scanBack (fun j => isSpace (e.char j)) e.cursor)

/-- The end of the word behind the cursor. -/
def wordEnd : Nat :=
  let j := scanOn (fun j => isSpace (e.char j)) (e.len - e.cursor) e.cursor
  scanOn (fun j => !isSpace (e.char j)) (e.len - j) j

/-- Ctrl-W. -/
def killWord : Editor :=
  if 0 < e.cursor then
    let j := e.wordStart
    let killed := e.cursor - j
    { (e.keepKilled j killed).move j e.cursor (List.range (e.len - e.cursor)) with
      len := e.len - killed, cursor := j }.terminate
  else e

/-- Ctrl-Y. -/
def yank : Editor :=
  if 0 < e.killLen ∧ e.len + e.killLen < lineMax - 1 then
    let shifted := e.move (e.cursor + e.killLen) e.cursor (List.range (e.len - e.cursor)).reverse
    { shifted with
      line := shifted.line.copyIn e.cursor (e.kill.buf.slice 0 e.killLen)
      len := e.len + e.killLen, cursor := e.cursor + e.killLen }.terminate
  else e

/-- Ctrl-R and F7 with the line they return. -/
def pick (text : List UInt8) : Editor := if text = [] then e else e.replace text

/-- F8. -/
def searchPrefix (h : History) : Editor :=
  match h.find (fun entry => strieqn e.len entry (e.line.buf.slice 0 e.len)) 1 with
  | none => e
  | some entry => e.replace (entry.take (clamp entry.length))

def recallLine (h : History) (back : Nat) : Editor :=
  let entry := (h.get back).getD []
  e.replace (entry.take (clamp entry.length))

def historyUp (h : History) : Editor :=
  if e.histPos < h.count then
    let kept := if e.histPos = 0 then
        { e with saved := (e.saved.copyIn 0 (e.line.buf.slice 0 e.len)).store e.len 0
                 savedLen := e.len, savedCursor := e.cursor }
      else e
    { kept with histPos := e.histPos + 1 }.recallLine h (e.histPos + 1)
  else e

def historyDown (h : History) : Editor :=
  if 0 < e.histPos then
    if e.histPos = 1 then
      { e with
        histPos := 0
        line := (e.line.copyIn 0 (e.saved.buf.slice 0 e.savedLen)).store e.savedLen 0
        len := e.savedLen, cursor := e.savedCursor }
    else { e with histPos := e.histPos - 1 }.recallLine h (e.histPos - 1)
  else e

/-- A printable character at the cursor. -/
def insert (c : UInt8) : Editor :=
  if e.len < lineMax - 1 then
    let shifted := e.move (e.cursor + 1) e.cursor (List.range (e.len - e.cursor)).reverse
    { shifted with line := shifted.line.store e.cursor c
                   len := e.len + 1, cursor := e.cursor + 1 }.terminate
  else e

/-- The start of the token in front of the cursor. -/
def tokStart : Nat := scanBack (fun j => !isSpace (e.char j)) e.cursor

/-- The characters of the token, as `prefix_buf` holds them. -/
def token : List UInt8 := e.line.buf.slice e.tokStart (e.cursor - e.tokStart)

/-- The completion of the token: of a command at the start of the line, else of a file. -/
def completion (directory : List (List UInt8)) : Completion :=
  if e.tokStart = 0 then completeCommand e.token else completeFilename directory e.token

/-- A string of some characters and its NUL is stored in a local buffer. -/
def storeLocal (chars : List UInt8) : Editor :=
  { e with localsInside := e.localsInside && chars.length < lineMax }

/-- The token is replaced by some characters, with the tail of the line behind them and a
gap of `gap` characters in front of it. -/
def putToken (text : List UInt8) (gap : Nat) : Editor :=
  let start := e.tokStart
  let tail := e.len - e.cursor
  let moved := e.move (start + text.length + gap) e.cursor (List.range tail).reverse
  { moved with
    line := moved.line.copyIn start text
    len := start + text.length + gap + tail, cursor := start + text.length + gap }

/-- A single match, with a blank behind it. -/
def completeOne (text : List UInt8) : Editor :=
  if lineMax ≤ e.tokStart + text.length + 1 + (e.len - e.cursor) then e
  else
    let put := e.putToken text 1
    { put with line := put.line.store (e.tokStart + text.length) 32 }.terminate

/-- Several matches: the token becomes what they share. -/
def completeSeveral (text : List UInt8) : Editor :=
  if e.cursor - e.tokStart < text.length then (e.putToken text 0).terminate else e

/-- `strlen_` of a string that has been stored. -/
def stringOf (chars : List UInt8) : List UInt8 := chars.takeWhile (· ≠ 0)

/-- The Tab key. -/
def tab (directory : List (List UInt8)) : Editor :=
  if scanOn (fun j => !isSpace (e.char j)) (e.cursor - e.tokStart) e.tokStart ≠ e.cursor then e
  else
    let e' := e.storeLocal e.token
    match e.completion directory with
    | .none => e'
    | .one out => (e'.storeLocal out).completeOne (stringOf out)
    | .several out => (e'.storeLocal out).completeSeveral (stringOf out)

/-- What a key leads to: `read_line` goes on, or it returns a length. -/
inductive Outcome
  | more (e : Editor)
  | done (e : Editor) (result : Nat)

/-- The keys that read nothing more. -/
def key (h : History) (directory : List (List UInt8)) : Key → Outcome
  | .char c =>
      if c = 13 ∨ c = 10 then .done e.terminate e.len
      else if c = 8 ∨ c = 127 then .more e.backspace
      else if c = 1 then .more { e with cursor := 0 }
      else if c = 5 then .more { e with cursor := max e.cursor e.len }
      else if c = 11 then .more e.killToEnd
      else if c = 21 then .more e.killToStart
      else if c = 25 then .more e.yank
      else if c = 23 then .more e.killWord
      else if c = 3 then .done { e with line := e.line.store 0 0 } 0
      else if c = 9 then .more (e.tab directory)
      else if 32 ≤ c ∧ c < 127 then .more (e.insert c)
      else .more e
  | .up => .more (e.historyUp h)
  | .down => .more (e.historyDown h)
  | .left => .more { e with cursor := e.cursor - 1 }
  | .right => .more { e with cursor := if e.cursor < e.len then e.cursor + 1 else e.cursor }
  | .home => .more { e with cursor := 0 }
  | .last => .more { e with cursor := max e.cursor e.len }
  | .del => .more e.deleteChar
  | .wordLeft => .more { e with cursor := e.wordStart }
  | .wordRight => .more { e with cursor := e.wordEnd }
  | .metaBackspace => .more e.killWord
  | .f8 => .more (e.searchPrefix h)
  | .f7 => .more e

/-- One round of `read_line` on the characters that come in, and those behind the key. -/
def round (h : History) (directory : List (List UInt8)) (input : List UInt8) :
    Option (Outcome × List UInt8) :=
  match readKey input with
  | none => none
  | some (.char 18, rest) =>
      (reverseIsearch h rest).map fun picked => (.more (e.pick picked.1), picked.2)
  | some (.f7, rest) => (f7Popup h rest).map fun picked => (.more (e.pick picked.1), picked.2)
  | some (k, rest) => some (e.key h directory k, rest)

end Editor

end Editing

end Ncd15.Xcpm
