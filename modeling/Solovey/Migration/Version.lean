import Solovey.Text.Strings

/-!
# Versions

The versions that settings and releases carry: three numbers, of which the last may be missing where
an old version is read, with pre-release identifiers and build metadata.
-/

namespace Solovey.Migration

open Solovey.Text

structure Semver where
  major : ℕ
  minor : ℕ
  patch : ℕ
  prerelease : List Str
  build : Str
  deriving DecidableEq

/-- `strings.Cut`: what stands before and after the first separator. -/
def cut (sep : Char) (s : Str) : Str × Str :=
  (s.takeWhile (· ≠ sep), (s.dropWhile (· ≠ sep)).drop 1)

/-- `Atoi` takes the numbers of 64 bits. -/
def parseNumericIdentifier (value : Str) : Option ℕ :=
  if 1 < value.length ∧ value.head? = some '0' then none
  else (readDecimal value).filter (· < 2 ^ 63)

def isAllDigits (value : Str) : Bool := value ≠ [] && value.all Char.isDigit

def validIdentifierList (value : Str) (rejectZeroPaddedNumbers : Bool) : Bool :=
  value ≠ [] && (value.splitOn '.').all fun id =>
    id ≠ [] && id.all (fun r => r.isAlphanum || r = '-') &&
      !(rejectZeroPaddedNumbers && (parseNumericIdentifier id).isNone && isAllDigits id)

/-- The part of a version before the build metadata. -/
def parseCore (core build : Str) (allowLegacyMinor : Bool) : Option Semver := do
  let (corePart, prerelease) := cut '-' core
  let coreFields := corePart.splitOn '.'
  let coreFields :=
    if coreFields.length = 2 && allowLegacyMinor then coreFields ++ [['0']] else coreFields
  match coreFields with
  | [major, minor, patch] =>
    let major ← parseNumericIdentifier major
    let minor ← parseNumericIdentifier minor
    let patch ← parseNumericIdentifier patch
    if prerelease = [] then some ⟨major, minor, patch, [], build⟩
    else if validIdentifierList prerelease true then
      some ⟨major, minor, patch, prerelease.splitOn '.', build⟩
    else none
  | _ => none

def parseVersion (version : Str) (allowLegacyMinor : Bool) : Option Semver :=
  let version := trimPrefix ['V'] (trimPrefix ['v'] (trimSpace version))
  if version = [] then none
  else match version.splitOn '+' with
    | [core] => parseCore core [] allowLegacyMinor
    | [core, build] =>
      if validIdentifierList build false then parseCore core build allowLegacyMinor else none
    | _ => none

def parseSemver (version : Str) : Option Semver := parseVersion version false

def normalizeVersion (version : Str) : Str :=
  match parseVersion version true with
  | none => []
  | some v =>
    decimal v.major ++ '.' :: decimal v.minor ++ '.' :: decimal v.patch ++
      (if v.prerelease = [] then [] else '-' :: ['.'].intercalate v.prerelease) ++
      (if v.build = [] then [] else '+' :: v.build)

def comparePrereleaseIdentifier (left right : Str) : Ordering :=
  match parseNumericIdentifier left, parseNumericIdentifier right with
  | some l, some r => compare l r
  | some _, none => .lt
  | none, some _ => .gt
  | none, none => compare left right

/-- The loop over the identifiers, and the lengths when one list starts with the other. -/
def compareIdentifiers : List Str → List Str → Ordering
  | [], [] => .eq
  | [], _ :: _ => .lt
  | _ :: _, [] => .gt
  | l :: left, r :: right => (comparePrereleaseIdentifier l r).then (compareIdentifiers left right)

/-- A version without a pre-release comes after those with one. -/
def comparePrerelease (left right : List Str) : Ordering :=
  if left = [] ∧ right = [] then .eq else if left = [] then .gt
  else if right = [] then .lt else compareIdentifiers left right

def compareSemver (left right : Semver) : Ordering :=
  ((compare left.major right.major).then (compare left.minor right.minor)).then
    ((compare left.patch right.patch).then (comparePrerelease left.prerelease right.prerelease))

def compareVersions (left right : Str) : Option Ordering := do
  compareSemver (← parseVersion left true) (← parseVersion right true)

/-- The major and the minor number that `dbVersionMinorIs` compares. -/
def release (version : Str) : Option (ℕ × ℕ) :=
  (parseSemver (normalizeVersion version)).map fun v => (v.major, v.minor)

def dbVersionMinorIs (version : Str) (major minor : ℕ) : Bool :=
  release version = some (major, minor)

def rejectFutureVersion (label actual supported : Str) : Except Str Unit :=
  if actual = [] then .ok ()
  else match compareVersions actual supported with
    | none => .error (label ++ " version \"".toList ++ actual ++
        "\" is not semver-compatible".toList)
    | some .gt => .error (label ++ " version \"".toList ++ actual ++
        "\" is newer than supported \"".toList ++ supported ++ ['"'])
    | some _ => .ok ()

end Solovey.Migration
