import Overload.Scanner

/-! The reading half of `lua-helper/src/json.lua`, which Lua assertions take documents apart
with.  Lua's strings are bytes, its indices start at one, and a table has no place for nil. -/

namespace Overload.Lua

open Scanner

abbrev Bytes := List UInt8

def ascii (text : String) : Bytes := text.toList.map Char.toUInt8

inductive Key
  | index (i : Nat)
  | string (s : Bytes)
  deriving DecidableEq, Repr

inductive Value (N : Type)
  | nil
  | boolean (b : Bool)
  | number (n : N)
  | string (s : Bytes)
  | table (entries : List (Key × Value N))

variable {N : Type}

def setEntry (entries : List (Key × Value N)) (key : Key) : Value N → List (Key × Value N)
  | .nil => entries.filter fun entry => entry.1 ≠ key
  | value => entries.filter (fun entry => entry.1 ≠ key) ++ [(key, value)]

def getEntry (entries : List (Key × Value N)) (key : Key) : Value N :=
  (entries.lookup key).getD .nil

namespace Json

abbrev quote : UInt8 := 34

abbrev backslash : UInt8 := 92

abbrev openBrace : UInt8 := 123

abbrev closeBrace : UInt8 := 125

def spaceChars : Bytes := [' ', '\t', '\r', '\n'].map Char.toUInt8

def delimChars : Bytes := spaceChars ++ [']'.toUInt8, closeBrace, ','.toUInt8]

def escapeChars : Bytes := backslash :: quote :: ascii "/bfnrtu"

def escapeCharMap : List (UInt8 × UInt8) :=
  [(backslash, backslash), (quote, quote), (8, 'b'.toUInt8), (12, 'f'.toUInt8),
    ('\n'.toUInt8, 'n'.toUInt8), ('\r'.toUInt8, 'r'.toUInt8), ('\t'.toUInt8, 't'.toUInt8)]

def escapeCharMapInv : List (UInt8 × UInt8) :=
  ('/'.toUInt8, '/'.toUInt8) :: escapeCharMap.map Prod.swap

def isDigit (b : UInt8) : Bool := '0'.toUInt8 ≤ b && b ≤ '9'.toUInt8

def isHex (b : UInt8) : Bool :=
  isDigit b || ('a'.toUInt8 ≤ b && b ≤ 'f'.toUInt8) || ('A'.toUInt8 ≤ b && b ≤ 'F'.toUInt8)

def hexDigit (b : UInt8) : Nat :=
  if isDigit b then b.toNat - 48 else if b < 'a'.toUInt8 then b.toNat - 55 else b.toNat - 87

def hexNumber (s : Bytes) : Nat := s.foldl (fun n b => 16 * n + hexDigit b) 0

def nextDelim (c : Cursor UInt8) : Cursor UInt8 := c.seek delimChars.contains

def skipSpaces (c : Cursor UInt8) : Cursor UInt8 := c.seek fun b => !spaceChars.contains b

structure Place where
  line : Nat
  col : Nat
  deriving DecidableEq, Repr

def Place.next (place : Place) (b : UInt8) : Place :=
  if b = '\n'.toUInt8 then ⟨place.line + 1, 1⟩ else ⟨place.line, place.col + 1⟩

def placeOf (str : Bytes) (idx : Nat) : Place := (str.take (idx - 1)).foldl Place.next ⟨1, 1⟩

def decodeError (str : Bytes) (idx : Nat) (msg : Bytes) : Bytes :=
  let place := placeOf str idx
  msg ++ ascii " at line " ++ ascii (toString place.line) ++ ascii " col " ++
    ascii (toString place.col)

def codepointToUtf8 (n : Nat) : Except Bytes Bytes :=
  if n ≤ 0x7f then .ok ([n].map UInt8.ofNat)
  else if n ≤ 0x7ff then .ok ([n / 64 + 192, n % 64 + 128].map UInt8.ofNat)
  else if n ≤ 0xffff then
    .ok ([n / 4096 + 224, n % 4096 / 64 + 128, n % 64 + 128].map UInt8.ofNat)
  else if n ≤ 0x10ffff then
    .ok ([n / 262144 + 240, n % 262144 / 4096 + 128, n % 4096 / 64 + 128, n % 64 + 128].map
      UInt8.ofNat)
  else
    .error (ascii "invalid unicode codepoint '" ++ ascii (.ofList (Nat.toDigits 16 n)) ++ ascii "'")

def startsWith : List (UInt8 → Bool) → Bytes → Bool
  | [], _ => true
  | _ :: _, [] => false
  | p :: classes, b :: rest => p b && startsWith classes rest

def strMatch (classes : List (UInt8 → Bool)) (rest : Bytes) : Option Bytes :=
  if startsWith classes rest then some (rest.take classes.length) else none

def pairPattern : List (UInt8 → Bool) :=
  [(ascii "dD").contains, (ascii "89aAbB").contains, isHex, isHex, (· == backslash),
    (· == 'u'.toUInt8), isHex, isHex, isHex, isHex]

def codePattern : List (UInt8 → Bool) := List.replicate 4 isHex

def parseUnicodeEscape (s : Bytes) : Except Bytes Bytes :=
  let n₁ := hexNumber (s.take 4)
  match s.drop 6 with
  | [] => codepointToUtf8 n₁
  | low => codepointToUtf8 ((n₁ - 0xd800) * 0x400 + hexNumber low + 0x10000 - 0xdc00)

def parseEscape (str : Bytes) (c : Cursor UInt8) : Except Bytes (Bytes × Nat) :=
  let escape := c.advance 1
  let chr := escape.rest.head?
  if chr = some 'u'.toUInt8 then
    match (strMatch pairPattern (escape.advance 1).rest).or
        (strMatch codePattern (escape.advance 1).rest) with
    | none => .error (decodeError str c.idx (ascii "invalid unicode escape in string"))
    | some hex => (parseUnicodeEscape hex).map fun bytes => (bytes, 2 + hex.length)
  else if chr.any escapeChars.contains then
    .ok ((chr.bind fun b => escapeCharMapInv.lookup b).toList, 2)
  else
    .error (decodeError str c.idx
      (ascii "invalid escape char '" ++ chr.toList ++ ascii "' in string"))

/-- The loop, with the bytes that `str:sub(k, j - 1)` would add already in `res`. -/
def parseStringLoop (str : Bytes) (i : Nat) :
    Nat → Bytes → Cursor UInt8 → Result Bytes UInt8 Bytes
  | 0, _, _ => .outOfFuel
  | fuel + 1, res, c =>
    match c.rest with
    | [] => .error (decodeError str i (ascii "expected closing quote for string"))
    | x :: _ =>
      if x < 32 then .error (decodeError str c.idx (ascii "control character in string"))
      else if x = backslash then
        match parseEscape str c with
        | .error message => .error message
        | .ok (bytes, n) => parseStringLoop str i fuel (res ++ bytes) (c.advance n)
      else if x = quote then .ok res (c.advance 1)
      else parseStringLoop str i fuel (res ++ [x]) (c.advance 1)

def parseString (str : Bytes) (fuel : Nat) (c : Cursor UInt8) : Result Bytes UInt8 Bytes :=
  parseStringLoop str c.idx fuel [] (c.advance 1)

inductive ParseFunction
  | string
  | number
  | literal
  | array
  | object
  deriving DecidableEq, Repr

/-- Lua as the parser meets it: its numbers, and the calls inside each other, the innermost
first, that its stack has room for. -/
structure Interpreter where
  Num : Type
  tonumber : Bytes → Option Num
  hasRoom : List ParseFunction → Bool

variable (x : Interpreter)

def call {α : Type} (calls : List ParseFunction) (body : Result Bytes UInt8 α) :
    Result Bytes UInt8 α :=
  if x.hasRoom calls then body else .error (ascii "stack overflow")

def parseNumber (str : Bytes) (c : Cursor UInt8) : Result Bytes UInt8 (Value x.Num) :=
  let s := c.upTo delimChars.contains
  match x.tonumber s with
  | none => .error (decodeError str c.idx (ascii "invalid number '" ++ s ++ ascii "'"))
  | some n => .ok (.number n) (nextDelim c)

def literalMap : List (Bytes × Value x.Num) :=
  [(ascii "true", .boolean true), (ascii "false", .boolean false), (ascii "null", .nil)]

def parseLiteral (str : Bytes) (c : Cursor UInt8) : Result Bytes UInt8 (Value x.Num) :=
  let word := c.upTo delimChars.contains
  match (literalMap x).lookup word with
  | none => .error (decodeError str c.idx (ascii "invalid literal '" ++ word ++ ascii "'"))
  | some value => .ok value (nextDelim c)

variable {x}

def parseArrayLoop (str : Bytes) (parse : Cursor UInt8 → Result Bytes UInt8 (Value x.Num)) :
    Nat → List (Key × Value x.Num) → Nat → Cursor UInt8 → Result Bytes UInt8 (Value x.Num)
  | 0, _, _, _ => .outOfFuel
  | fuel + 1, res, n, c =>
    let c := skipSpaces c
    if c.rest.head? = some ']'.toUInt8 then .ok (.table res) (c.advance 1)
    else
      (parse c).bind fun value c =>
        let res := setEntry res (.index n) value
        let c := skipSpaces c
        let chr := c.rest.head?
        let c := c.advance 1
        if chr = some ']'.toUInt8 then .ok (.table res) c
        else if chr = some ','.toUInt8 then parseArrayLoop str parse fuel res (n + 1) c
        else .error (decodeError str c.idx (ascii "expected ']' or ','"))

def parseObjectLoop (str : Bytes) (calls : List ParseFunction)
    (parse : Cursor UInt8 → Result Bytes UInt8 (Value x.Num)) :
    Nat → List (Key × Value x.Num) → Cursor UInt8 → Result Bytes UInt8 (Value x.Num)
  | 0, _, _ => .outOfFuel
  | fuel + 1, res, c =>
    let c := skipSpaces c
    if c.rest.head? = some closeBrace then .ok (.table res) (c.advance 1)
    else if c.rest.head? = some quote then
      (call x (.string :: calls) (parseString str fuel c)).bind fun key c =>
        let c := skipSpaces c
        if c.rest.head? = some ':'.toUInt8 then
          (parse (skipSpaces (c.advance 1))).bind fun value c =>
            let res := setEntry res (.string key) value
            let c := skipSpaces c
            let chr := c.rest.head?
            let c := c.advance 1
            if chr = some closeBrace then .ok (.table res) c
            else if chr = some ','.toUInt8 then parseObjectLoop str calls parse fuel res c
            else .error (decodeError str c.idx (ascii "expected '\x7d' or ','"))
        else .error (decodeError str c.idx (ascii "expected ':' after key"))
    else .error (decodeError str c.idx (ascii "expected string for key"))

def charFuncMap (b : UInt8) : Option ParseFunction :=
  if b = quote then some .string
  else if isDigit b || b = '-'.toUInt8 then some .number
  else if (ascii "tfn").contains b then some .literal
  else if b = '['.toUInt8 then some .array
  else if b = openBrace then some .object
  else none

variable (x)

/-- `return f(str, idx)` takes the place of `parse` on the stack. -/
def parse (str : Bytes) :
    Nat → List ParseFunction → Cursor UInt8 → Result Bytes UInt8 (Value x.Num)
  | 0, _, _ => .outOfFuel
  | fuel + 1, calls, c =>
    match c.rest.head?.bind charFuncMap with
    | some f =>
      call x (f :: calls) <|
        match f with
        | .string => (parseString str fuel c).map .string
        | .number => parseNumber x str c
        | .literal => parseLiteral x str c
        | .array =>
          parseArrayLoop str (parse str fuel (.array :: calls)) fuel [] 1 (c.advance 1)
        | .object =>
          parseObjectLoop str (.object :: calls) (parse str fuel (.object :: calls)) fuel []
            (c.advance 1)
    | none =>
      .error (decodeError str c.idx
        (ascii "unexpected character '" ++ c.rest.head?.toList ++ ascii "'"))

/-- No call needs more than two turns of a loop or of `parse` for each character. -/
def decode (str : Bytes) : Result Bytes UInt8 (Value x.Num) :=
  (parse x str (2 * str.length + 2) [] (skipSpaces ⟨1, str⟩)).bind fun value c =>
    let c := skipSpaces c
    if c.rest = [] then .ok value c
    else .error (decodeError str c.idx (ascii "trailing garbage"))

end Json

end Overload.Lua
