import OpenInstrument.Library.Paths
import OpenInstrument.Go.Text

/-! # Static files

`RequestHandler` gives a request to the first handler whose path it starts with.  `HttpStaticDir` replaces
that path by its local directory, takes every leading slash and dot off, and refuses what contains `../`.
-/

namespace OpenInstrument.Server

open Posix (StrictlyBelow Follows components strictlyBelow_iff)

/-! ## Routing -/

def dollar : UInt8 := 36

/-- Whether `HandleRequest` takes a handler for a request.  A handler's path that ends in `$` has to match
as a whole, any other as a prefix. -/
def handles (uriPath handlerPath : Bytes) : Bool :=
  if handlerPath.getLast? = some dollar then decide (uriPath = handlerPath.dropLast)
  else handlerPath.isPrefixOf uriPath

/-- The path of the handler that a request goes to. -/
def routeRequest (handlers : List Bytes) (uriPath : Bytes) : Option Bytes := handlers.find? (handles uriPath)

/-! ## Serving a file -/

structure HttpStaticDir where
  httpPath : Bytes
  localPath : Bytes
  deriving DecidableEq

/-- The request's path with the local directory in place of the handler's path. -/
def HttpStaticDir.replaced (dir : HttpStaticDir) (uriPath : Bytes) : Bytes :=
  dir.localPath ++ uriPath.drop dir.httpPath.length

/-- The name without its leading slashes and dots. -/
def stripLeading (localfile : Bytes) : Bytes := localfile.dropWhile fun char => char == Posix.slash || char == Posix.dot

/-- `HandleGet` up to the call of `ServeLocalFile`: the name of the file to serve, unless the request is
answered with "not found".  `find(http_path_) != 0` holds exactly if the path is no prefix. -/
def HttpStaticDir.handleGet (dir : HttpStaticDir) (uriPath : Bytes) : Option Bytes :=
  if dir.httpPath.isPrefixOf uriPath then
    if (0 : UInt8) ∈ dir.replaced uriPath then none
    else if ascii "../" <:+: stripLeading (dir.replaced uriPath) then none
    else some (stripLeading (dir.replaced uriPath))
  else none

/-! ## Staying inside the directory -/

/-- The requests that are answered with "not found". -/
def HttpStaticDir.Refuses (dir : HttpStaticDir) (uriPath : Bytes) : Prop :=
  dir.httpPath.getLast? = some dollar ∨ (0 : UInt8) ∈ dir.replaced uriPath ∨
    ascii "../" <:+: stripLeading (dir.replaced uriPath)

theorem stripLeading_head (localfile : Bytes) :
    ∀ char ∈ (stripLeading localfile).head?, char ≠ Posix.slash ∧ char ≠ Posix.dot := by
  intro char first
  have kept := List.head?_dropWhile_not (fun char => char == Posix.slash || char == Posix.dot) localfile
  rw [stripLeading] at first
  rw [first] at kept
  simpa using kept

/-- A request goes to a directory only if it starts with the directory's path. -/
theorem isPrefixOf_of_routed {handlers : List Bytes} {uriPath handlerPath : Bytes}
    (routed : routeRequest handlers uriPath = some handlerPath) (open_ : handlerPath.getLast? ≠ some dollar) :
    handlerPath.isPrefixOf uriPath = true := by
  have handled := List.find?_some routed
  rwa [handles, if_neg open_] at handled

/-- A path that has to match as a whole is longer than what it matches. -/
theorem not_isPrefixOf_of_routed {handlers : List Bytes} {uriPath handlerPath : Bytes}
    (routed : routeRequest handlers uriPath = some handlerPath) (whole : handlerPath.getLast? = some dollar) :
    handlerPath.isPrefixOf uriPath = false := by
  have handled := List.find?_some routed
  rw [handles, if_pos whole, decide_eq_true_eq] at handled
  subst handled
  rw [Bool.eq_false_iff]
  intro starts
  have fits := (List.isPrefixOf_iff_prefix.mp starts).length_le
  obtain ⟨front, ends⟩ := List.getLast?_eq_some_iff.mp whole
  rw [ends, List.dropLast_concat, List.length_append] at fits
  exact absurd fits (Nat.not_succ_le_self _)

theorem handleGet_eq_some {handlers : List Bytes} {dir : HttpStaticDir} {uriPath file : Bytes}
    (routed : routeRequest handlers uriPath = some dir.httpPath) :
    dir.handleGet uriPath = some file ↔
      ¬ dir.Refuses uriPath ∧ stripLeading (dir.replaced uriPath) = file := by
  unfold HttpStaticDir.handleGet HttpStaticDir.Refuses
  by_cases whole : dir.httpPath.getLast? = some dollar
  · simp [not_isPrefixOf_of_routed routed whole, whole]
  · rw [if_pos (isPrefixOf_of_routed routed whole)]
    split
    · simp_all
    · split
      · simp_all
      · simp_all

/-- A request that is routed to a directory is served from inside it exactly when it is refused, or the
name starts with the components of the directory and goes on below. -/
theorem handleGet_inside_iff (handlers : List Bytes) (dir : HttpStaticDir) (uriPath : Bytes)
    (routed : routeRequest handlers uriPath = some dir.httpPath) :
    (∀ file, dir.handleGet uriPath = some file → StrictlyBelow dir.localPath file) ↔
      dir.Refuses uriPath ∨ Follows dir.localPath (components (stripLeading (dir.replaced uriPath))) := by
  simp only [handleGet_eq_some routed]
  by_cases refused : dir.Refuses uriPath
  · simp [refused]
  · have noUp : ¬ Posix.up ++ [Posix.slash] <:+: stripLeading (dir.replaced uriPath) := by
      intro inside
      exact refused (.inr (.inr inside))
    rw [← strictlyBelow_iff dir.localPath (stripLeading_head _) noUp]
    simp [refused]

/-- The directory of the server, and the handlers that are registered when it starts. -/
def staticDir : HttpStaticDir := { httpPath := ascii "/static", localPath := ascii "static" }

def serverHandlers : List Bytes :=
  [ascii "/static", ascii "/favicon.ico$", ascii "/add$", ascii "/list$", ascii "/get$", ascii "/get_config$",
    ascii "/health$", ascii "/status$", ascii "/export_vars$"]

theorem handleGet_inside_index :
    (∀ file, staticDir.handleGet (ascii "/static/index.html") = some file →
        StrictlyBelow staticDir.localPath file) ↔
      staticDir.Refuses (ascii "/static/index.html") ∨
        Follows staticDir.localPath
          (components (stripLeading (staticDir.replaced (ascii "/static/index.html")))) :=
  handleGet_inside_iff serverHandlers staticDir (ascii "/static/index.html") (by decide)

/-- A sibling of the directory whose name starts with that of the directory is served, and so is the parent
of the directory. -/
theorem handleGet_outside :
    routeRequest serverHandlers (ascii "/static-private/key") = some staticDir.httpPath ∧
      staticDir.handleGet (ascii "/static-private/key") = some (ascii "static-private/key") ∧
      ¬ StrictlyBelow staticDir.localPath (ascii "static-private/key") ∧
      staticDir.handleGet (ascii "/static/..") = some (ascii "static/..") ∧
      ¬ StrictlyBelow staticDir.localPath (ascii "static/..") := by
  have outside : ∀ file, Posix.resolve [] file ≠ ascii "static" :: (Posix.resolve [] file).tail →
      ¬ StrictlyBelow staticDir.localPath file := by
    intro file elsewhere below
    obtain ⟨names, -, leads⟩ := below []
    have root : Posix.resolve [] staticDir.localPath = [ascii "static"] := by decide
    rw [root] at leads
    exact elsewhere (by rw [leads]; rfl)
  exact ⟨by decide, by decide, outside _ (by decide), by decide,
    outside _ (by decide)⟩

end OpenInstrument.Server
