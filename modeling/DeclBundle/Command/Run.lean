import DeclBundle.Command.Args
import DeclBundle.Command.Files
import DeclBundle.Json.Writer
import DeclBundle.Manifest

/-!
# Runs

A run reads a manifest, bundles the entries that are wanted and writes the bundles. `Plan.ofText`
decides everything that is to be written before anything is, so a run that fails on the way to its
plan leaves the files as they are; `Plan.perform` then writes step by step up to the first step that
cannot be done.
-/

namespace DeclBundle

/-- Why a run stops. -/
inductive RunError where
  | unreadable (path : String)
  | unparsable (path : String)
  | store (e : StoreError)
  | noEntry (module : String)
  | bundle (e : BundleError)
  | noDirectory (path : String)
  | noWrite (path : String)
deriving DecidableEq, Repr

/-- The text of an error of a run. -/
def RunError.message : RunError → String
  | .unreadable path => "failed to read manifest " ++ path
  | .unparsable path => "failed to parse manifest " ++ path
  | .store e => e.message
  | .noEntry module => "manifest has no entry for module '" ++ module ++ "'"
  | .bundle e => e.message
  | .noDirectory path => "failed to create directory " ++ path
  | .noWrite path => "failed to write " ++ path

/-- What a run does to the files. -/
inductive Step where
  | makeDirs (path : String)
  | write (path text : String)
deriving DecidableEq, Repr

namespace Step

/-- The error of a step that cannot be done. -/
def error : Step → RunError
  | .makeDirs path => .noDirectory path
  | .write path _ => .noWrite path

/-- The path that a step writes to, if it writes a file. -/
def target? : Step → Option String
  | .makeDirs _ => none
  | .write path _ => some path

/-- The tree of files after a step, if the step can be done. -/
def after? (t : FileTree) : Step → Option FileTree
  | .makeDirs path => t.makeDirs? path
  | .write path text => t.write? path text

end Step

/-- The entries of a manifest that are wanted, in its order; all of them if none is named. -/
def wantedEntries (entries : List Entry) (wanted : List String) :
    Except RunError (List Entry) :=
  match wanted.find? fun name => !entries.any (·.module == name) with
  | some name => .error (.noEntry name)
  | none => .ok (if wanted.isEmpty then entries else entries.filter (·.module ∈ wanted))

/-- The steps that write a bundle: its directory, its map, its code. The code ends with a line that
names the map. -/
def Bundle.steps (outDir : String) (b : Bundle) : List Step :=
  let path := Path.join outDir b.file.fileName
  let dirs := ((Path.parent? path).map Step.makeDirs).toList
  match b.printed.map with
  | none => dirs ++ [.write path b.printed.code]
  | some map =>
    let mapPath := Path.ofMap path
    dirs ++ [.write mapPath map,
      .write path (b.printed.code ++ "//# sourceMappingURL=" ++ Path.fileName mapPath ++ "\n")]

/-- The report on the statistics of all bundles. -/
def statsReport (bundles : List Bundle) : String :=
  Json.pretty (.arr (bundles.map fun b =>
    .obj (("output", .str b.file.fileName) :: b.stats.fields)))

/-- What a run is going to write, and what it has to say. -/
structure Plan where
  bundles : List Bundle
  steps : List Step

namespace Plan

/-- The directory that bundles go to: the one asked for, or that of the manifest. -/
def outDir (args : Args) : String :=
  args.outDir.getD ((Path.parent? args.manifest).getD "")

/-- The plan of a run with this manifest. -/
def ofManifest (args : Args) (m : Manifest) : Except RunError Plan := do
  let store ← (Store.ofUnits m.modules).mapError .store
  let entries ← wantedEntries m.entries args.entries
  let bundler := Bundler.ofStore store (args.applyTo m.options)
  let bundles ← (bundler.bundleEach entries).mapError .bundle
  let dir := outDir args
  let report := Step.write (Path.join dir "stats.json") (statsReport bundles)
  return ⟨bundles, bundles.flatMap (Bundle.steps dir) ++ if args.stats then [report] else []⟩

/-- The plan of a run that finds this text for its manifest. -/
def ofText (args : Args) : Option String → Except RunError Plan
  | none => .error (.unreadable args.manifest)
  | some text =>
    match Manifest.parse text with
    | .error _ => .error (.unparsable args.manifest)
    | .ok m => ofManifest args m

/-- The diagnostics of all bundles of a plan. -/
def diagnostics (p : Plan) : List Diagnostic := p.bundles.flatMap (·.diagnostics)

/-- The files that are written, in order. -/
def written (p : Plan) : List String := p.steps.filterMap Step.target?

/-- Some diagnostic of a plan is an error. -/
def hasErrors (p : Plan) : Bool := p.diagnostics.any Diagnostic.isError

/-- Does the steps in order up to the first that cannot be done. -/
def perform (t : FileTree) : List Step → FileTree × Except RunError Unit
  | [] => (t, .ok ())
  | step :: rest =>
    match step.after? t with
    | none => (t, .error step.error)
    | some t => perform t rest

end Plan

/-- The files after a run, and its plan if it came to its end. -/
def run (args : Args) (t : FileTree) : FileTree × Except RunError Plan :=
  match Plan.ofText args (t.read? args.manifest) with
  | .error e => (t, .error e)
  | .ok plan =>
    let (t, result) := Plan.perform t plan.steps
    (t, result.map fun _ => plan)

end DeclBundle
