import DasIndexer.Schema.Values

/-!
# The JSON form of Core plugins

A Core account stores its plugins as the JSON that `serde` makes of them, after three rewritings: the name
of a plugin is taken out of its data, authorities get one shape whatever their kind, and keys become snake
case.  A JSON object keeps its fields in insertion order, as `serde_json` does here; removing a field moves
the last one to its place.

The case conversion of a key comes from another crate and is the parameter `toSnakeCase`.
-/

namespace DasIndexer.Accounts.PluginsJson

/-- A `serde_json::Map`, in its order. -/
abbrev Fields := List (String × Json)

/-- `Map::get`. -/
def get? (fields : Fields) (key : String) : Option Json := (fields.find? fun f => f.1 == key).map Prod.snd

/-- `Map::insert`: a present key keeps its position. -/
def insert (fields : Fields) (key : String) (value : Json) : Fields :=
  if fields.any fun f => f.1 == key then fields.map fun f => if f.1 == key then (key, value) else f
  else fields ++ [(key, value)]

/-- `Map::remove`: the last field takes the place of the removed one. -/
def remove (fields : Fields) (key : String) : Fields :=
  match fields.findIdx? fun f => f.1 == key, fields.getLast? with
  | some i, some last => (fields.set i last).dropLast
  | _, _ => fields

/-- Rewrite the value under a key. -/
def modify (fields : Fields) (key : String) (f : Json → Json) : Fields :=
  fields.map fun e => if e.1 == key then (e.1, f e.2) else e

/-- Rewrite the fields of an object. -/
def mapObject (f : Fields → Fields) : Json → Json
  | .obj fields => .obj (f fields)
  | v => v

/-- Rewrite every plugin of an object or an array of plugins. -/
def mapPlugins (f : Json → Json) : Json → Json
  | .obj plugins => .obj (plugins.map fun e => (e.1, f e.2))
  | .arr plugins => .arr (plugins.map f)
  | v => v

/-- `remove_nesting_from_plugin`. -/
def removeNestingFromPlugin (nestedKey : String) (plugin : Json) : Json :=
  mapObject (fun fields => modify fields nestedKey (mapObject fun nested =>
    match nested with
    | [] => []
    | (_, .obj inner) :: _ => inner
    | _ => [])) plugin

/-- `remove_plugins_nesting`. -/
def removePluginsNesting (nestedKey : String) : Json → Json :=
  mapPlugins (removeNestingFromPlugin nestedKey)

/-- `transform_authority`. -/
def transformAuthority : Json → Json
  | .obj [] => .obj []
  | .obj ((authorityType, inner) :: rest) =>
    let removed := remove ((authorityType, inner) :: rest) authorityType
    match inner with
    | .obj pubkey =>
      match get? pubkey "address" with
      | some address => .obj (insert (insert removed "type" (.str authorityType)) "address" address)
      | none => .obj removed
    | _ => .obj removed
  | .str authorityType => .obj [("type", .str authorityType), ("address", .null)]
  | v => v

/-- `transform_authority_in_object`, `transform_data_authority_in_object` and
`transform_linked_app_data_parent_key_in_object`, in this order. -/
def transformPluginAuthority (plugin : Fields) : Fields :=
  let plugin := modify plugin "authority" transformAuthority
  let plugin := modify plugin "adapter_config"
    (mapObject fun config => modify config "data_authority" transformAuthority)
  modify plugin "adapter_config"
    (mapObject fun config => modify config "parent_key"
      (mapObject fun parentKey => modify parentKey "LinkedAppData" transformAuthority))

/-- `transform_plugins_authority`. -/
def transformPluginsAuthority : Json → Json := mapPlugins (mapObject transformPluginAuthority)

/-- The renaming loop of `convert_keys_to_snake_case`: each key of the object as it was is taken out and put
back under its new name. -/
def renameKeys (toSnakeCase : String → String) (fields : Fields) : Fields :=
  fields.foldl (fun acc f =>
    match get? acc f.1 with
    | some value => insert (remove acc f.1) (toSnakeCase f.1) value
    | none => acc) fields

mutual

/-- `convert_keys_to_snake_case`.  The values are converted first, which is the same since renaming moves
them as they are. -/
def convertKeysToSnakeCase (toSnakeCase : String → String) : Json → Json
  | .obj fields => .obj (renameKeys toSnakeCase (convertFields toSnakeCase fields))
  | .arr values => .arr (convertValues toSnakeCase values)
  | v => v

def convertFields (toSnakeCase : String → String) : Fields → Fields
  | [] => []
  | (key, value) :: fields =>
    (key, convertKeysToSnakeCase toSnakeCase value) :: convertFields toSnakeCase fields

def convertValues (toSnakeCase : String → String) : List Json → List Json
  | [] => []
  | value :: values => convertKeysToSnakeCase toSnakeCase value :: convertValues toSnakeCase values

end

end DasIndexer.Accounts.PluginsJson
