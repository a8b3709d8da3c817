import IndustrialHmi.Model.ModelContext
import IndustrialHmi.Model.ProductTable

/-!
# Operations on the products that call back

Each of the four operations posts one handler, which runs the operation on the I/O thread and
hands the callback to the main loop.  Whether the handler was posted is not looked at, so that a
call that is lost has no answer at all (`callbacks_iff`).
-/

namespace Products

inductive AsyncCall where
  | addProductAsync (productCode name status : Text) (stock : ℤ) (qualityRate : Binary32)
  | updateProductAsync (id : ℤ) (name status : Text) (stock : ℤ) (qualityRate : Binary32)
  | deleteProductAsync (id : ℤ)
  | getAllProductsAsync
  deriving DecidableEq

/-- What a callback is called with. -/
inductive Answer where
  | success (b : Bool)
  | products (ps : List Product)
  deriving DecidableEq

/-- When a call is served, and whether its statement fails. -/
structure Circumstances where
  now : Text := []
  fails : Bool := false

instance : Inhabited Circumstances := ⟨{}⟩

/-- The operation of a call. -/
def serve (t : ProductTable) (c : AsyncCall) (w : Circumstances) : Answer × ProductTable :=
  match c with
  | .addProductAsync productCode name status stock qualityRate =>
      let (success, t) := t.addProduct productCode name status stock qualityRate w.now w.fails
      (.success success, t)
  | .updateProductAsync id name status stock qualityRate =>
      let (success, t) := t.updateProduct id name status stock qualityRate w.now w.fails
      (.success success, t)
  | .deleteProductAsync id =>
      let (success, t) := t.deleteProduct id w.now w.fails
      (.success success, t)
  | .getAllProductsAsync => (.products (if w.fails then [] else t.getAllProducts), t)

open ModelContext

abbrev AsyncEvent := Event AsyncCall Circumstances

/-- In every run all callbacks are invoked once, in order and with the results of the operations
of their calls, which are carried out on the store once each, if every step of the run meets the
condition, and only then. -/
theorem callbacks_iff (t : ProductTable) (events : List AsyncEvent) :
    Context.Delivers serve t events ↔
      Runs.Along (Context.step serve) Context.Meets { store := t } events :=
  Context.delivers_after_iff serve t events

/-- A call that is posted when the context is stopped is not served, and neither is one answered
that throws. -/
theorem callback_lost :
    ¬Context.Delivers serve .empty [.call (.deleteProductAsync 1), .stop] ∧
      ¬Context.Delivers serve .empty
        [.call (.deleteProductAsync 1), .take, .serve .throws, .finish] := by
  constructor
  · intro h
    have hsound := (Context.delivers_iff _ _).mp h
    exact absurd (hsound.flows rfl) nofun
  · intro h
    have hsound := (Context.delivers_iff _ _).mp h
    exact absurd hsound.whole nofun

end Products
