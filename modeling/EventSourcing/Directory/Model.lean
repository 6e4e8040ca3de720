import EventSourcing.Directory.Org
import EventSourcing.Directory.KeyPair
import EventSourcing.Directory.Journal

/-!
# The write models of the directory

One type for the three kinds of write model, so that they can be kept side by side.
-/

namespace EventSourcing

/-- A write model of any kind. -/
inductive DirectoryModel where
  | org (m : Org)
  | keyPair (m : KeyPair)
  | journal (m : Journal)
deriving DecidableEq

namespace DirectoryModel

/-- The bookkeeping of a model, whatever its kind. -/
def base : DirectoryModel → WriteModel
  | org m => m.base
  | keyPair m => m.base
  | journal m => m.base

/-- Buffers events for the next reduction. -/
def append (events : List Event) : DirectoryModel → DirectoryModel
  | org m => org (Reducer.append events m)
  | keyPair m => keyPair (Reducer.append events m)
  | journal m => journal (Reducer.append events m)

/-- Folds what is buffered, each kind in its own way. -/
def reduce : DirectoryModel → Except ReduceError Unit × DirectoryModel
  | org m => (m.reduce.1, org m.reduce.2)
  | keyPair m => (m.reduce.1, keyPair m.reduce.2)
  | journal m => (m.reduce.1, journal m.reduce.2)

instance : ExistenceCheck DirectoryModel where
  append := append
  reduce := reduce
  query
    | org m => QueryReducer.query m
    | keyPair m => QueryReducer.query m
    | journal m => QueryReducer.query m
  subjectExists
    | org m => ExistenceCheck.subjectExists m
    | keyPair m => ExistenceCheck.subjectExists m
    | journal m => ExistenceCheck.subjectExists m

instance : Bookkept DirectoryModel := ⟨base⟩

end DirectoryModel

end EventSourcing
