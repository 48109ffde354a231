import Playscript.Json

/-!
# Sprites

Pictures put on the stage. Where a sprite stands and whether it shows matters to whoever draws it
and to no one here, so its attributes are kept as they are given.
-/

namespace Playscript

structure Sprite where
  path : Text
  x : Json := .int 0
  y : Json := .int 0
  visible : Json := .bool true

/-- Sprites are drawn at their own size. -/
def Sprite.debugForm (s : Sprite) : Text :=
  "Sprite(sprite=".toList ++ Text.quoted s.path ++ ", x=".toList ++ s.x.inspect
    ++ ", y=".toList ++ s.y.inspect ++ ", scale=1.0, visible=".toList ++ s.visible.inspect ++ [')']

end Playscript
