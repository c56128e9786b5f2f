import LiveRecords.Workspace

/-!
# What is held

A program reaches the views it has names for and the child views those keep;
the identity maps it has names for, those of open stores, and those under the
views it reaches. A record is held by its names and by the rows and staging
places of reachable views, and lives as long as it is held or registered.
-/

namespace LiveRecords

/-- The records that a view holds. -/
def View.held (v : View) : List RecordRef := v.rows.map (·.2) ++ v.staging.toList

namespace Workspace

def childrenOf (w : Workspace) (v : ViewRef) : List ViewRef :=
  (w.views[v]?).elim [] fun view => view.children.map (·.2)

/-- The views within reach. A child view comes after the view that keeps it, so
one pass suffices. -/
def reachableViews (w : Workspace) : List ViewRef :=
  (List.range w.views.length).foldl
    (fun found v => if found.contains v then found ++ w.childrenOf v else found)
    (w.viewNames.map (·.2))

/-- The identity maps within reach. -/
def reachableMaps (w : Workspace) : List MapRef :=
  w.mapNames.map (·.2) ++ w.stores.flatMap (fun s => s.2.maps.map (·.2)) ++
    w.reachableViews.filterMap fun v => (w.views[v]?).map (·.map)

/-- The records held outside the identity maps. -/
def heldRecords (w : Workspace) : List RecordRef :=
  w.handles.map (·.2) ++
    w.reachableViews.flatMap fun v => (w.views[v]?).elim [] View.held

def isHeld (w : Workspace) (r : RecordRef) : Bool := w.heldRecords.contains r

/-- The records registered in identity maps within reach. -/
def registeredRecords (w : Workspace) : List RecordRef :=
  w.reachableMaps.flatMap fun m => (w.maps[m]?).elim [] fun map => map.registered.map (·.2)

def isAlive (w : Workspace) (r : RecordRef) : Bool :=
  w.isHeld r || w.registeredRecords.contains r

theorem isAlive_of_isHeld {w : Workspace} {r : RecordRef} (h : w.isHeld r = true) :
    w.isAlive r = true := by
  simp [isAlive, h]

end Workspace

end LiveRecords
