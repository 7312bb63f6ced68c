import SourceStamp.Text.Blank
import SourceStamp.Text.Escape

/-!
# Module paths

Raw module ids, URLs and bundler chunk names, shortened to paths within a project.

- `ModulePath.display`: the path that is shown for a raw one.
- `ModulePath.stampName`: the path that a stamp names.
- `ModulePath.isBundled`: whether a path names bundler output rather than a source file.
- `ModulePath.recover`: the source path that the name of bundler output still tells.

```text
/home/me/shop/src/components/Cart.tsx  shows as  src/components/Cart.tsx
/_next/static/chunks/app/docs/page.js  shows as  app/docs/page
file:///work/web/app/layout.tsx        shows as  app/layout.tsx
/_next/static/chunks/4f9a1c2e7b.js     shows as  [bundled]
```
-/

namespace SourceStamp
namespace ModulePath

open Text (isBlank occurs withoutFinalNewline)

/-- The first result that the tails of a text give, from the longest tail on. -/
def firstTail? {α : Type} (f : Text → Option α) : Text → Option α
  | [] => f []
  | c :: r => (f (c :: r)).or (firstTail? f r)

/-- What follows `start` in a text that starts with it. -/
def after? (start t : Text) : Option Text :=
  if start.isPrefixOf t then some (t.drop start.length) else none

/-- Whether a character separates the segments of a path (`_SEPARATORS`). -/
def isSeparator (c : Char) : Bool := c == '/' || c == Text.backslash

/-- Whether a character is a lower-case hexadecimal digit. -/
def isHex (c : Char) : Bool := c.isDigit || ('a' ≤ c && c ≤ 'f')

/-- The path before its query and fragment (`_strip_query`). -/
def withoutQuery (path : Text) : Text := path.takeWhile fun c => c != '?' && c != '#'

/-- The extensions of source files (`_SOURCE_EXTENSION`). -/
def extensions : List Text :=
  [".js".toList, ".ts".toList, ".tsx".toList, ".jsx".toList, ".mjs".toList, ".cjs".toList]

/-- A path without the extension of a source file (`strip_extension`). A line feed at the end is
kept and does not hide the extension. -/
def withoutExtension (path : Text) : Text :=
  let body := withoutFinalNewline path
  match extensions.find? (·.isSuffixOf body) with
  | some e => body.take (body.length - e.length) ++ path.drop body.length
  | none => path

/-- The last segment of a path, without query and fragment (`extract_file_name`). -/
def fileName (path : Text) : Text := withoutQuery (Text.lastPiece isSeparator path)

/-! ## Bundler output -/

/-- Texts that occur in the paths of bundler output only (`_BUNDLED_MARKERS`). -/
def bundleMarkers : List Text :=
  ["/_next/".toList, "/chunks/".toList, "webpack://".toList, "webpack-internal://".toList,
    "turbopack://".toList, "__turbopack__".toList, ".hot-update.".toList,
    "node_modules__pnpm".toList, "node_modules__npm".toList]

/-- Whether a text starts with a hash between two points: at least six hexadecimal digits
(`_HASHED_SEGMENT`). -/
def startsWithHash (t : Text) : Bool :=
  match after? ".".toList t with
  | none => false
  | some r => 6 ≤ (r.takeWhile isHex).length && (r.dropWhile isHex).head? == some '.'

/-- Whether a segment is the id of a chunk: at least eight hexadecimal digits (`_CHUNK_ID`). -/
def isChunkId (segment : Text) : Bool :=
  let id := withoutFinalNewline segment
  8 ≤ id.length && id.all isHex

/-- Whether a path names bundler output (`is_bundled_path`). -/
def isBundled (path : Text) : Bool :=
  "[bundled".toList.isPrefixOf path ||
    bundleMarkers.any (occurs · path) ||
    path.tails.any startsWithHash ||
    isChunkId (Text.lastPiece (· == '/') path)

/-- The label of a text that starts with `[bundled: label]` (`_BUNDLED_LABEL`). Blanks before the
label are dropped, but of a label that is all blanks the last one stays. -/
def labelAt? (t : Text) : Option Text := do
  let r ← after? "[bundled:".toList t
  let inner := r.takeWhile (· != ']')
  if inner.length < r.length then
    match inner.dropWhile isBlank with
    -- a label that is all blanks
    | [] => inner.getLast?.map ([·])
    | label => some label
  else none

/-- The path that follows an encoded package name, `node_modules__npm_name__path`, at the start of a
text (`_TURBOPACK_ENCODED`). -/
def encodedPathAt? (t : Text) : Option Text := do
  let r ← after? "node_modules__".toList t
  let r ← (after? "pnpm_".toList r).or (after? "npm_".toList r)
  let r ← if r.head?.any (· != '_') then some (r.dropWhile (· != '_')) else none
  let r ← after? "__".toList r
  match r.takeWhile (· != '\n') with
  | [] => none
  | path => some path

/-- The shortest path with a character at least that ends before a question mark, a colon or the
end of the text. A line feed ends the text if it is the last character, and no path holds one. -/
def protocolPath? : Text → Option Text
  | [] => none
  | c :: r => if c = '\n' then none else (upToEnd? r).map (c :: ·)
where
  /-- The characters up to such an end, if one is reached on the line. -/
  upToEnd? : Text → Option Text
    | [] => some []
    | c :: r =>
      if c = '?' || c = ':' then some []
      else if c = '\n' then (if r.isEmpty then some [] else none)
      else (upToEnd? r).map (c :: ·)

/-- The path of a text that starts with `turbopack://project/path` (`_TURBOPACK_PROTOCOL`). -/
def protocolPathAt? (t : Text) : Option Text := do
  let r ← after? "turbopack://".toList t
  if r.head?.any (· != '/') then
    let r ← after? "/".toList (r.dropWhile (· != '/'))
    protocolPath? r
  else none

/-- The text before the last `.js` or `.ts` that does not stand at the very start. -/
def beforeLastExtension? : Text → Option Text
  | [] => none
  | c :: r =>
    match beforeLastExtension? r with
    | some t => some (c :: t)
    | none =>
      if ".js".toList.isPrefixOf r || ".ts".toList.isPrefixOf r then some [c] else none

/-- The path from a directory on, up to its last source extension, at the start of a text
(`_MARKER_RECOVERY`). -/
def directoryPathAt? (directory t : Text) : Option Text := do
  let r ← after? (directory ++ ['/']) t
  let path ← beforeLastExtension? (r.takeWhile (· != '?'))
  some (directory ++ '/' :: path)

/-- The path from the first segment named `directory` on that is followed by a source extension. -/
def directoryPath? (directory path : Text) : Option Text :=
  (directoryPathAt? directory path).or
    (firstTail? (fun t => (after? "/".toList t).bind (directoryPathAt? directory)) path)

/-- The name of a chunk at the start of a text (`_CHUNK_NAME`). -/
def chunkNameAt? (t : Text) : Option Text := do
  let r ← after? "chunks/".toList t
  match r.takeWhile fun c => c != '/' && c != '.' with
  | [] => none
  | name => some name

/-- Whether a name consists of hexadecimal digits of either case and underscores (`_HEX_NAME`). -/
def isHexName (name : Text) : Bool :=
  match withoutFinalNewline name with
  | [] => false
  | t => t.all fun c => isHex c.toLower || c == '_'

/-- Whether a text consists of hexadecimal digits (`_HEX_ONLY`). -/
def isHexOnly (t : Text) : Bool :=
  match withoutFinalNewline t with
  | [] => false
  | t => t.all isHex

/-- The path of a package file that a path encodes. -/
def encodedPath? (path : Text) : Option Text := do
  let encoded ← firstTail? encodedPathAt? path
  let found := withoutExtension (Text.replaceAll "__".toList "/".toList encoded)
  if found.isEmpty || isHexOnly found then none else some found

/-- The path that follows the protocol and project in a path. -/
def protocolPathIn? (path : Text) : Option Text := do
  let found := withoutExtension (← firstTail? protocolPathAt? path)
  if found.isEmpty then none else some found

/-- The directories that start a recovered path, in order of preference. -/
def recoveryDirectories : List Text :=
  ["app".toList, "pages".toList, "src".toList, "components".toList]

/-- A readable chunk name as a label. -/
def chunkLabel? (path : Text) : Option Text := do
  let name ← firstTail? chunkNameAt? path
  if isHexName name then none else some ("[bundled: ".toList ++ name ++ "]".toList)

/-- What the path of bundler output still tells: its label, an encoded path, the path after a
protocol, the path from a known directory on, or the name of its chunk (`_recover_bundled`). -/
def recover (path : Text) : Text :=
  ((firstTail? labelAt? path)
    |>.or (encodedPath? path)
    |>.or (protocolPathIn? path)
    |>.or (recoveryDirectories.findSome? (directoryPath? · path))
    |>.or (chunkLabel? path)).getD "[bundled]".toList

/-! ## Displayed and stamped paths -/

/-- The directories that start a path within a project, in order of preference
(`PROJECT_ROOT_MARKERS`). -/
def projectRoots : List Text :=
  ["src".toList, "app".toList, "pages".toList, "components".toList]

/-- The path from the first directory with a project root's name on (`_collapse_to_marker`). -/
def fromRoot? (path : Text) : Option Text :=
  let parts := Text.pieces isSeparator path
  (projectRoots.find? (parts.dropLast.contains ·)).map fun root =>
    Text.join "/".toList (parts.dropWhile (· != root))

/-- A path without the scheme of a file URL (`_SCHEME_PREFIXES`). -/
def withoutScheme (path : Text) : Text := (after? "file://".toList path).getD path

/-- Whether a path belongs to a dependency or to the runtime. -/
def isForeign (path : Text) : Bool :=
  occurs "node_modules".toList path || "node:".toList.isPrefixOf path

/-- The path that is shown for a raw path, URL or module id (`clean_file_path`). It is empty for
those of dependencies and of the runtime. -/
def display (path : Text) : Text :=
  let bare := withoutQuery path
  if isBundled bare then recover bare
  else
    let bare := withoutScheme bare
    if isForeign bare then [] else (fromRoot? bare).getD bare

/-- The last two segments of a path that has more. -/
def lastTwo (path : Text) : Text :=
  let parts := (Text.pieces isSeparator path).filter (!·.isEmpty)
  if 2 < parts.length then Text.join "/".toList (parts.drop (parts.length - 2)) else path

/-- The path that a stamp names: the shown one without its extension (`injection_path`). A path
outside all project roots keeps two segments at most. -/
def stampName (path : Text) : Text :=
  let bare := withoutQuery path
  let shown := display path
  let named := if shown.isEmpty then bare else shown
  let short := if isBundled bare || (fromRoot? named).isSome then named else lastTwo named
  withoutExtension (short.map fun c => if c = Text.backslash then '/' else c)

end ModulePath
end SourceStamp
