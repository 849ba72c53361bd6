import Solovey.Hash.Sha256
import Solovey.Network.Render

/-!
# The broker's check of a candidate

`validateCandidate` of `nft_backend.go`: the artifact's size, its digest and its revision marker,
the scope of the managed table, and then a closed grammar of lines. No group of its expressions but
one holds a blank, so they are written as patterns on the words of the trimmed line.
-/

namespace Solovey.Network

open Solovey.Text Solovey.Net Solovey.Hash

inductive CandidateError
  | size
  | digest
  | revision
  | forbidden (token : Str)
  | unmanagedTable
  | tableDeletion
  | topLevel
  | unbalanced
  | tableMissing
  | conflated
  | notGenerated
  deriving DecidableEq

def CandidateError.text : CandidateError → Str
  | .size => "candidate artifact size is invalid".toList
  | .digest => "candidate artifact SHA-256 mismatch".toList
  | .revision => "candidate artifact revision marker mismatch".toList
  | .forbidden token => "managed artifact contains forbidden token \"".toList ++ token ++ ['"']
  | .unmanagedTable => "artifact names an unmanaged table".toList
  | .tableDeletion => "artifact contains a forbidden table deletion".toList
  | .topLevel => "artifact contains a top-level command outside the managed table".toList
  | .unbalanced => "artifact has unbalanced managed-table scope".toList
  | .tableMissing => "managed table declaration is missing".toList
  | .conflated => "candidate contains a conflated endpoint family or protocol".toList
  | .notGenerated => "candidate contains a non-generated nft statement".toList

def maxManagedCandidateBytes : ℕ := 262144

/-! ## Scope -/

def forbiddenTokens : List Str :=
  ["flush ruleset", "include ", "define ", "iptables", "firewalld", "table ip ", "table ip6 ",
    "table arp ", "table bridge ", "table netdev "].map String.toList

def tableLine : Str := "table inet solovey_protection \x7b".toList

structure Scope where
  found : Bool
  depth : ℤ
  tableDeclarations : ℕ

def scopeLine (allowDelete : Bool) (scope : Scope) (raw : Str) : Except CandidateError Scope :=
  let line := trimSpace raw
  if line = [] then .ok scope
  else if scope.depth = 0 ∧ "table ".toList.isPrefixOf line ∧ line ≠ tableLine then
    .error .unmanagedTable
  else
    let scope := if scope.depth = 0 ∧ "table ".toList.isPrefixOf line then
        { scope with found := true, tableDeclarations := scope.tableDeclarations + 1 }
      else scope
    if scope.depth = 0 ∧ "delete table ".toList.isPrefixOf line then
      if !allowDelete ∨ line ≠ "delete table inet solovey_protection".toList then
        .error .tableDeletion
      else .ok { scope with found := true }
    else if scope.depth = 0 ∧ line ≠ tableLine then .error .topLevel
    else
      let depth := scope.depth + (line.count '{' - line.count '}' : ℤ)
      if depth < 0 then .error .unbalanced else .ok { scope with depth := depth }

def validateManagedScope (data : Str) (allowDelete : Bool) : Except CandidateError Unit :=
  let text := toLower data
  match forbiddenTokens.find? (contains · text) with
  | some token => .error (.forbidden token)
  | none =>
    match (text.splitOn '\n').foldlM (scopeLine allowDelete) ⟨false, 0, 0⟩ with
    | .error e => .error e
    | .ok scope =>
      if !scope.found ∨ scope.depth ≠ 0 ∨ 1 < scope.tableDeclarations then .error .tableMissing
      else .ok ()

/-! ## Patterns -/

/-- `[0-9]{1,n}`. -/
def isNumber (n : ℕ) (w : Str) : Bool :=
  decide (1 ≤ w.length) && decide (w.length ≤ n) && w.all Char.isDigit

/-- `[1-9][0-9]{0,n-1}`. -/
def isPositive (n : ℕ) (w : Str) : Bool := isNumber n w && w.head? != some '0'

/-- `[a-f0-9]{12}`. -/
def isShortHex (w : Str) : Bool := w.length == 12 && w.all isLowerHex

/-- A fixed beginning and a rest that satisfies a pattern. -/
def startsWith (start : Str) (rest : Str → Bool) (w : Str) : Bool :=
  start.isPrefixOf w && rest (w.drop start.length)

/-- A fixed end and a front that satisfies a pattern. -/
def endsWith (tail : Str) (front : Str → Bool) (w : Str) : Bool :=
  tail.isSuffixOf w && front (w.take (w.length - tail.length))

/-- `[0-9a-f:./]+`. -/
def isNetwork (w : Str) : Bool := !w.isEmpty && w.all fun c => isAddressChar c || c == '/'

/-- `[0-9a-f:.]+`. -/
def isAddress (w : Str) : Bool := !w.isEmpty && w.all isAddressChar

/-- `solovey_(gray|rate|quarantine|block)[46]_[a-f0-9]{12}`. -/
def isEndpointSet (w : Str) : Bool :=
  ["gray", "rate", "quarantine", "block"].any fun kind => ["4_", "6_"].any fun family =>
    startsWith ("solovey_".toList ++ kind.toList ++ family.toList) isShortHex w

def isEndpointChain : Str → Bool := startsWith "solovey_endpoint_".toList isShortHex

def managedSetDeclaration : List Str → Bool
  | [keyword, name, brace] => keyword == "set".toList && brace == "\x7b".toList &&
      ((["solovey_allow_tcp_ports", "solovey_allow_udp_ports", "solovey_graylist4",
        "solovey_graylist6"].map String.toList).contains name || isEndpointSet name)
  | _ => false

def managedChainDeclaration : List Str → Bool
  | [keyword, name, brace] => keyword == "chain".toList && brace == "\x7b".toList &&
      ((["solovey_input_precheck", "solovey_tcp_public", "solovey_udp_public",
        "solovey_input"].map String.toList).contains name || isEndpointChain name)
  | _ => false

/-- `^elements = \{ [0-9a-f:.,/ ]* \}$`, the only pattern with a blank in a group. -/
def allowedElements (line : Str) : Bool :=
  startsWith "elements = \x7b ".toList (endsWith " \x7d".toList fun body =>
    body.all fun c => isAddressChar c || c == '/' || c == ',' || c == ' ') line

/-- `[0-9a-f:./]+ timeout [0-9]{1,5}s`, with commas between the elements. -/
def timedElements : List Str → Bool
  | [source, keyword, ttl, brace] => isNetwork source && keyword == "timeout".toList &&
      endsWith "s".toList (isNumber 5) ttl && brace == "\x7d".toList
  | source :: keyword :: ttl :: rest => isNetwork source && keyword == "timeout".toList &&
      endsWith "s,".toList (isNumber 5) ttl && timedElements rest
  | _ => false

def allowedTimedElements : List Str → Bool
  | keyword :: equals :: brace :: rest => keyword == "elements".toList && equals == "=".toList &&
      brace == "\x7b".toList && timedElements rest
  | _ => false

def allowedSize : List Str → Bool
  | [keyword, value] => keyword == "size".toList && isPositive 5 value ||
      keyword == "timeout".toList && endsWith "s".toList (isPositive 5) value
  | _ => false

/-- The optional limit of an action and its drop. -/
def allowedDrop : List Str → Bool
  | [counter, drop] => counter == "counter".toList && drop == "drop".toList
  | [limit, rate, exceeding, perSecond, burst, count, packets, counter, drop] =>
    limit == "limit".toList && rate == "rate".toList && exceeding == "over".toList &&
      (["2/second", "5/second", "20/second"].map String.toList).contains perSecond &&
      burst == "burst".toList && (["4", "10", "40"].map String.toList).contains count &&
      packets == "packets".toList && counter == "counter".toList && drop == "drop".toList
  | _ => false

def isIPKeyword (w : Str) : Bool := w == "ip".toList || w == "ip6".toList

def allowedEndpointAction : List Str → Bool
  | keyword :: direction :: set :: rest => isIPKeyword keyword && direction == "saddr".toList &&
      startsWith "@".toList isEndpointSet set && allowedDrop rest
  | _ => false

/-! ## Endpoint lines -/

/-- The groups of a line for an endpoint. -/
structure EndpointLine where
  family : Str
  source : Option Str
  destination : Option Str
  metaProtocol : Str
  portProtocol : Str
  expires : Option Str
  jump : Bool

/-- An optional `ip6? saddr ADDRESS`: its keyword, and what follows. -/
def readAddressGroup (direction : Str) (address : Str → Bool) : List Str → Option Str × List Str
  | keyword :: word :: value :: rest =>
    if isIPKeyword keyword && word == direction && address value then (some keyword, rest)
    else (none, keyword :: word :: value :: rest)
  | ws => (none, ws)

/-- An optional `meta time < SECONDS`. -/
def readExpires : List Str → Option Str × List Str
  | keyword :: time :: less :: value :: rest =>
    if keyword == "meta".toList && time == "time".toList && less == "<".toList &&
        isPositive 12 value then (some value, rest)
    else (none, keyword :: time :: less :: value :: rest)
  | ws => (none, ws)

/-- `counter accept`, or a jump. -/
def readAction : List Str → Option Bool
  | [first, second] =>
    if first == "counter".toList && second == "accept".toList then some false
    else if first == "jump".toList && isEndpointChain second then some true
    else none
  | _ => none

def isProtocol (w : Str) : Bool := w == "tcp".toList || w == "udp".toList

def readPort : List Str → Option (Str × Str × List Str)
  | keyword :: l4proto :: metaProtocol :: portProtocol :: dport :: port :: rest =>
    if keyword == "meta".toList && l4proto == "l4proto".toList && isProtocol metaProtocol &&
        isProtocol portProtocol && dport == "dport".toList && isNumber 5 port then
      some (metaProtocol, portProtocol, rest)
    else none
  | _ => none

def allowedEndpointJump : List Str → Option EndpointLine
  | keyword :: nfproto :: family :: rest =>
    if keyword == "meta".toList && nfproto == "nfproto".toList &&
        (family == "ipv4".toList || family == "ipv6".toList) then
      let source := readAddressGroup "saddr".toList isNetwork rest
      let destination := readAddressGroup "daddr".toList isAddress source.2
      match readPort destination.2 with
      | some (metaProtocol, portProtocol, rest) =>
        let expires := readExpires rest
        (readAction expires.2).map fun jump =>
          ⟨family.drop 3, source.1, destination.1, metaProtocol, portProtocol, expires.1, jump⟩
      | none => none
    else none
  | _ => none

/-- The year 9999 ends at 253402300799. -/
def EndpointLine.conflated (line : EndpointLine) : Bool :=
  line.metaProtocol != line.portProtocol ||
    (line.expires.any fun text => line.jump || decide ((readDecimal text).getD 0 ≤ 0) ||
      decide (253402300799 < (readDecimal text).getD 0)) ||
    (line.family == "4".toList &&
      (line.source == some "ip6".toList || line.destination == some "ip6".toList)) ||
    (line.family == "6".toList &&
      (line.source == some "ip".toList || line.destination == some "ip".toList))

/-! ## Lines -/

def fixedLines : List Str :=
  ["", "\x7d", "table inet solovey_protection \x7b", "type inet_service", "type ipv4_addr",
    "type ipv6_addr", "flags interval", "flags interval,timeout",
    "type filter hook input priority filter; policy accept;",
    "type filter hook input priority -5; policy accept;", "iifname \"lo\" counter accept",
    "ct state established,related counter accept",
    "ct state new limit rate over 200/second burst 400 packets counter drop",
    "meta l4proto tcp tcp dport @solovey_allow_tcp_ports counter accept",
    "meta l4proto udp udp dport @solovey_allow_udp_ports counter accept",
    "counter accept"].map String.toList

def revisionMarker (revision : Str) : Str :=
  "comment \"solovey-revision:".toList ++ revision ++ "\"".toList

def generatedLine (revision line : Str) : Bool :=
  fixedLines.contains line || line == revisionMarker revision ||
    managedSetDeclaration (words line) || managedChainDeclaration (words line) ||
    allowedElements line || allowedTimedElements (words line) || allowedSize (words line) ||
    allowedEndpointAction (words line)

def checkLine (revision raw : Str) : Except CandidateError Unit :=
  match allowedEndpointJump (words (trimSpace raw)) with
  | some line => if line.conflated then .error .conflated else .ok ()
  | none => if generatedLine revision (trimSpace raw) then .ok () else .error .notGenerated

def checkLines (revision : Str) : List Str → Except CandidateError Unit
  | [] => .ok ()
  | raw :: rest =>
    match checkLine revision raw with
    | .error e => .error e
    | .ok () => checkLines revision rest

def validateCandidate (data revision expectedSHA : Str) : Except CandidateError Unit :=
  if data = [] ∨ maxManagedCandidateBytes < utf8Len data then .error .size
  else if hexDigest (encodeUtf8 data) ≠ expectedSHA then .error .digest
  else if !contains (revisionMarker revision) data then .error .revision
  else
    match validateManagedScope data false with
    | .error e => .error e
    | .ok () => checkLines revision (data.splitOn '\n')

/-- `CheckProtectionCandidate`. -/
def checkProtectionCandidate (data revision digest : Str) : Except CandidateError Unit :=
  validateCandidate data revision digest

end Solovey.Network
