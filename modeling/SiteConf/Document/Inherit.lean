import SiteConf.Document
import SiteConf.Log

set_option autoImplicit false

/-! # Inheritance between the levels of a site

A site may declare locations and headers once at the root. When it has servers, the root's
locations are appended to the locations of every server, and the headers of the root and of each
server are put in front of the headers of every location below. The origin table follows: a copied
node keeps the line of the node it was copied from. -/

namespace SiteConf.Document

def serversKey : String := "servers"

def locationsKey : String := "locations"

def headersKey : String := "headers"

def serversPath : String := KeyPath.child KeyPath.root serversKey

def sharedPath : String := KeyPath.child KeyPath.root locationsKey

/-! ## Shared locations -/

/-- Records for the items of the sequence at `target` from `offset` on what is recorded for the
first `count` items of the sequence at `source`. -/
def copyItems (source target : String) (offset count : Nat) (origins : Origins) : Origins :=
  (List.range count).foldl
    (fun o k => o.copySubtree (KeyPath.item source k) (KeyPath.item target (offset + k))) origins

/-- Appends the shared locations to those of one server. -/
def shareInto (shared : List Tree) (index : Nat) (server : Tree) (origins : Origins) :
    Tree × Origins :=
  match server with
  | .mapping fields =>
      let path := KeyPath.child (KeyPath.item serversPath index) locationsKey
      let origins :=
        if origins.contains path then origins
        else match origins.lineOf sharedPath with
          | some line => origins.record path line
          | none => origins
      match Ordered.get? locationsKey fields with
      | none =>
          (.mapping (Ordered.insert locationsKey (.sequence shared) fields),
            copyItems sharedPath path 0 shared.length origins)
      | some (.sequence own) =>
          (.mapping (Ordered.insert locationsKey (.sequence (own ++ shared)) fields),
            copyItems sharedPath path own.length shared.length origins)
      | some _ => (server, origins)
  | other => (other, origins)

/-- Appends the shared locations to those of every server from `index` on. -/
def shareAll (shared : List Tree) (index : Nat) :
    List Tree → Origins → List Tree × Origins
  | [], origins => ([], origins)
  | server :: rest, origins =>
      let here := shareInto shared index server origins
      let later := shareAll shared (index + 1) rest here.2
      (here.1 :: later.1, later.2)

/-- Hands the root's locations to every server. -/
def shareLocations (doc : Document) : Document :=
  match doc.tree with
  | .mapping root =>
      match Ordered.get? serversKey root with
      | none => doc
      | some servers =>
          let shared := Tree.itemsOf (Ordered.get? locationsKey root)
          let moved : Tree × Origins :=
            match servers with
            | .sequence list =>
                if shared.isEmpty then (servers, doc.origins)
                else
                  let all := shareAll shared 0 list doc.origins
                  (.sequence all.1, all.2)
            | other => (other, doc.origins)
          ⟨.mapping (Ordered.erase locationsKey (Ordered.insert serversKey moved.1 root)), moved.2⟩
  | _ => doc

/-! ## Inherited headers -/

/-- A header and the lines of its nodes. -/
structure Header where
  value : Tree
  lines : List (String × Nat)
  deriving Repr, Inhabited

/-- The headers that the node at `path` declares. -/
def headersOf (owner : Tree) (path : String) (origins : Origins) : List Header :=
  let here := KeyPath.child path headersKey
  (Tree.itemsOf (owner.get? headersKey)).zipIdx.map fun item =>
    ⟨item.1, origins.subtree (KeyPath.item here item.2)⟩

/-- The line of the `headers` key of the node at `path`. -/
def headersLine (path : String) (origins : Origins) : LineRef :=
  origins.lineOf (KeyPath.child path headersKey)

/-- Headers that come from above, and the line of the nearest `headers` key above. -/
structure Inheritance where
  headers : List Header
  line : LineRef
  deriving Repr, Inhabited

/-- Records the lines of a merged list of headers at `path`. -/
def recordHeaders (path : String) (line : LineRef) (merged : List Header) (origins : Origins) :
    Origins :=
  let cleared := origins.removeSubtree path
  let keyed :=
    match line with
    | some n => cleared.record path n
    | none => cleared
  merged.zipIdx.foldl (fun o h => o.graft (KeyPath.item path h.2) h.1.lines) keyed

/-- Puts the inherited headers in front of those of the location at `path`. -/
def inheritInto (above : Inheritance) (path : String) (location : Tree) (origins : Origins) :
    Tree × Origins :=
  let merged := above.headers ++ headersOf location path origins
  if merged.isEmpty then (location, origins)
  else match location with
    | .mapping fields =>
        let line := (headersLine path origins).or above.line
        (.mapping (Ordered.insert headersKey (.sequence (merged.map (·.value))) fields),
          recordHeaders (KeyPath.child path headersKey) line merged origins)
    | other => (other, origins)

/-- Puts the inherited headers in front of those of every location from `index` on. -/
def inheritAll (above : Inheritance) (path : String) (index : Nat) :
    List Tree → Origins → List Tree × Origins
  | [], origins => ([], origins)
  | location :: rest, origins =>
      let here := inheritInto above (KeyPath.item path index) location origins
      let later := inheritAll above path (index + 1) rest here.2
      (here.1 :: later.1, later.2)

/-- Moves the headers of one server into its locations. -/
def inheritServer (site : Inheritance) (index : Nat) (server : Tree) (origins : Origins) :
    Tree × Origins :=
  match server with
  | .mapping fields =>
      let path := KeyPath.item serversPath index
      let above : Inheritance :=
        ⟨site.headers ++ headersOf server path origins,
          (headersLine path origins).or site.line⟩
      let moved : List (String × Tree) × Origins :=
        match Ordered.get? locationsKey fields with
        | some (.sequence locations) =>
            let all := inheritAll above (KeyPath.child path locationsKey) 0 locations origins
            (Ordered.insert locationsKey (.sequence all.1) fields, all.2)
        | _ => (fields, origins)
      (.mapping (Ordered.erase headersKey moved.1), moved.2)
  | other => (other, origins)

/-- Moves the headers of every server from `index` on into its locations. -/
def inheritServers (site : Inheritance) (index : Nat) :
    List Tree → Origins → List Tree × Origins
  | [], origins => ([], origins)
  | server :: rest, origins =>
      let here := inheritServer site index server origins
      let later := inheritServers site (index + 1) rest here.2
      (here.1 :: later.1, later.2)

/-- Moves the headers of the root and the servers into the locations. -/
def inheritHeaders (doc : Document) : Document :=
  match doc.tree with
  | .mapping root =>
      match Ordered.get? serversKey root with
      | none => doc
      | some servers =>
          let site : Inheritance :=
            ⟨headersOf doc.tree KeyPath.root doc.origins, headersLine KeyPath.root doc.origins⟩
          let moved : Tree × Origins :=
            match servers with
            | .sequence list =>
                let all := inheritServers site 0 list doc.origins
                (.sequence all.1, all.2)
            | other => (other, doc.origins)
          ⟨.mapping (Ordered.erase headersKey (Ordered.insert serversKey moved.1 root)), moved.2⟩
  | _ => doc

/-- Hands down what the root and the servers share. -/
def settle (doc : Document) : Document :=
  doc.shareLocations.inheritHeaders

/-! ## The log -/

/-- The warning about a node that should be a sequence of shared parts. -/
def ignoring (path : String) : LogEntry :=
  ⟨.warn, "Ignoring '" ++ path ++ "': expected a sequence"⟩

/-- The warning about a shared part that is there but is no sequence. -/
def itemsLog (value : Option Tree) (path : String) : Log :=
  match value with
  | some (.sequence _) => []
  | some _ => [ignoring path]
  | none => []

/-- The log line about sharing locations with one server. -/
def shareIntoLog (count index : Nat) (server : Tree) : Log :=
  let path := KeyPath.item serversPath index
  match server with
  | .mapping fields =>
      match Ordered.get? locationsKey fields with
      | some (.sequence _) | none =>
          [⟨.debug, "Copied " ++ Number.showNat count ++ " shared location(s) into " ++ path⟩]
      | some _ =>
          [⟨.warn, "Skipping '" ++ KeyPath.child path locationsKey ++ "': expected a sequence"⟩]
  | _ => [⟨.warn, "Skipping '" ++ path ++ "': expected a mapping"⟩]

def shareLog (doc : Document) : Log :=
  match doc.tree with
  | .mapping root =>
      match Ordered.get? serversKey root with
      | none => []
      | some servers =>
          let shared := Ordered.get? locationsKey root
          itemsLog shared sharedPath ++
            match servers with
            | .sequence list =>
                if (Tree.itemsOf shared).isEmpty then []
                else list.zipIdx.flatMap fun s =>
                  shareIntoLog (Tree.itemsOf shared).length s.2 s.1
            | _ => [ignoring serversPath]
  | _ => []

/-- The log line about one location that inherits `above` headers. -/
def inheritIntoLog (above : Nat) (path : String) (location : Tree) : Log :=
  let own := location.get? headersKey
  itemsLog own (KeyPath.child path headersKey) ++
    match location with
    | .mapping _ => []
    | _ =>
        if above + (Tree.itemsOf own).length = 0 then []
        else [⟨.warn, "Skipping '" ++ path ++ "': expected a mapping"⟩]

/-- The log lines about one server whose site declares `above` headers. -/
def inheritServerLog (above index : Nat) (server : Tree) : Log :=
  let path := KeyPath.item serversPath index
  let own := server.get? headersKey
  itemsLog own (KeyPath.child path headersKey) ++
    (Tree.itemsOf (server.get? locationsKey)).zipIdx.flatMap fun l =>
      inheritIntoLog (above + (Tree.itemsOf own).length)
        (KeyPath.item (KeyPath.child path locationsKey) l.2) l.1

def inheritLog (doc : Document) : Log :=
  match doc.tree.get? serversKey with
  | none => []
  | some servers =>
      let own := doc.tree.get? headersKey
      itemsLog own (KeyPath.child KeyPath.root headersKey) ++
        (Tree.itemsOf (some servers)).zipIdx.flatMap fun s =>
          inheritServerLog (Tree.itemsOf own).length s.2 s.1

def settleLog (doc : Document) : Log :=
  doc.shareLog ++ doc.shareLocations.inheritLog

end SiteConf.Document
