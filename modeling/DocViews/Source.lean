import DocViews.ViewError
import DocViews.Text.Utf8

/-!
Sources of encoded rows: something from which items are pulled one after another, and
then a trailer. A scripted source plays back a list of items.
-/

namespace DocViews

/-- What can go wrong in a source. A fault that is one of our own errors keeps its kind. -/
inductive Fault where
  | known (error : ViewError)
  | foreign (message : String)
  deriving DecidableEq, Repr

def Fault.toError : Fault → ViewError
  | .known error => error
  | .foreign message => .internal message

inductive Item where
  /-- The encoded form of one row. -/
  | row (payload : Bytes)
  /-- An error reported inside the stream; nothing useful follows. -/
  | marker (m : Marker)
  /-- No further row. -/
  | finished

abbrev Pulled := Except Fault Item

/-- A source for one submitted query, by the states it goes through. -/
class RowSource (σ : Type) where
  next : σ → Pulled × σ
  /-- The encoded metadata, to be asked for after the last row. -/
  trailer : σ → Except Fault Bytes × σ

/-- A source that cannot yield rows forever. -/
class FiniteSource (σ : Type) extends RowSource σ where
  /-- A bound on the rows still to come. -/
  remaining : σ → Nat
  remaining_next {source after : σ} {payload : Bytes} :
    next source = (.ok (.row payload), after) → remaining after < remaining source

/-- Pulls items, at most `limit`, until one is no row; that one is included. -/
def RowSource.pullUpTo {σ : Type} [RowSource σ] : Nat → σ → List Pulled × σ
  | 0, source => ([], source)
  | limit + 1, source =>
      match RowSource.next source with
      | (.ok (.row payload), after) =>
          let (items, after) := pullUpTo limit after
          (.ok (.row payload) :: items, after)
      | (last, after) => ([last], after)

/-- Pulls items until one is no row; that one is included. -/
def FiniteSource.pullAll {σ : Type} [FiniteSource σ] (source : σ) : List Pulled × σ :=
  RowSource.pullUpTo (FiniteSource.remaining source + 1) source

structure ScriptedSource where
  script : List Pulled
  trailer : Option (Except Fault Bytes)

namespace ScriptedSource

/-- Appends an encoded row to the script. -/
def row (source : ScriptedSource) (payload : Bytes) : ScriptedSource :=
  { source with script := source.script ++ [.ok (.row payload)] }

/-- Appends a row, encoded as JSON. -/
def rowJson (source : ScriptedSource) (row : Json.Value) : ScriptedSource := source.row row.bytes

/-- A script that has run out goes on saying that there is no further row. -/
def next (source : ScriptedSource) : Pulled × ScriptedSource :=
  match source.script with
  | [] => (.ok .finished, source)
  | pulled :: rest => (pulled, { source with script := rest })

/-- The trailer can be had once. -/
def takeTrailer (source : ScriptedSource) : Except Fault Bytes × ScriptedSource :=
  (source.trailer.getD (.error (.foreign "no metadata trailer")), { source with trailer := none })

def remaining (source : ScriptedSource) : Nat := source.script.length

instance : FiniteSource ScriptedSource where
  next := next
  trailer := takeTrailer
  remaining := remaining
  remaining_next {source after payload} h := by
    obtain ⟨script, trailer⟩ := source
    cases script with
    | nil => simp [next] at h
    | cons pulled rest =>
        simp only [next, Prod.mk.injEq] at h
        simp [← h.2, remaining]

end ScriptedSource

end DocViews
