import ApiScaffold.Text.Basic

/-!
# The stubs that come with the library

One class stub for controllers, one for data objects, and a method stub for each action that
has a body of its own. A directory of the user can hold a stub of the same name, which is
then found first.
-/
namespace ApiScaffold.Stub

open Text

/-- A place to fill in: a name between double braces. -/
def slot (name : Text) : Text := "\x7b\x7b " ++ name ++ " \x7d\x7d"

/-- A line with its line feed. -/
def line (t : Text) : Text := t ++ "\n"

/-- The class of a controller. -/
def controllerClass : Text := List.flatten [
  line "<?php",
  line "",
  line ("namespace " ++ slot "namespace" ++ ";"),
  line "",
  line (slot "imports"),
  line "",
  line "/**",
  line (" * API endpoints for " ++ slot "model" ++ " records."),
  line " */",
  line ("class " ++ slot "class" ++ " extends BaseApiController"),
  line "\x7b",
  line "    protected function model(): string",
  line "    \x7b",
  line ("        return " ++ slot "modelClass" ++ ";"),
  line "    \x7d",
  line "",
  line "    protected function resource(): string",
  line "    \x7b",
  line ("        return " ++ slot "resourceClass" ++ ";"),
  line "    \x7d",
  line "",
  line "    protected function allowedFilters(): array",
  line "    \x7b",
  line ("        return " ++ slot "allowedFilters" ++ ";"),
  line "    \x7d",
  line "",
  line "    protected function allowedSorts(): array",
  line "    \x7b",
  line ("        return " ++ slot "allowedSorts" ++ ";"),
  line "    \x7d",
  line "",
  line "    protected function allowedIncludes(): array",
  line "    \x7b",
  line ("        return " ++ slot "allowedIncludes" ++ ";"),
  line "    \x7d",
  line (slot "methods" ++ "\x7d")]

/-- The method that creates a record. -/
def storeMethod : Text := List.flatten [
  line "    /**",
  line ("     * Store a newly created " ++ slot "modelVariable" ++ "."),
  line "     *",
  line "     * @status 201",
  line "     *",
  line ("     * @response array\x7bsuccess: bool, message: string, data: " ++
    slot "resourceClass" ++ "\x7d"),
  line "     */",
  line (slot "storeAttributes" ++ "    public function store(" ++ slot "dataClass" ++
    " $data): JsonResponse"),
  line "    \x7b",
  line ("        $" ++ slot "modelVariable" ++ " = " ++ slot "modelClass" ++
    "::create($data->toArray());"),
  line "",
  line "        return $this->createdResponse(",
  line ("            new " ++ slot "resourceClass" ++ "($" ++ slot "modelVariable" ++ "),"),
  line ("            '" ++ slot "modelName" ++ " created successfully'"),
  line "        );",
  line "    \x7d"]

/-- The method that changes a record. -/
def updateMethod : Text := List.flatten [
  line "    /**",
  line ("     * Update the specified " ++ slot "modelVariable" ++ "."),
  line "     *",
  line ("     * @response array\x7bsuccess: bool, message: string, data: " ++
    slot "resourceClass" ++ "\x7d"),
  line "     */",
  line (slot "updateAttributes" ++ "    public function update(" ++ slot "dataClass" ++
    " $data, " ++ slot "modelClass" ++ " $" ++ slot "modelVariable" ++ "): JsonResponse"),
  line "    \x7b",
  line ("        $" ++ slot "modelVariable" ++ "->update($data->toArray());"),
  line "",
  line "        return $this->successResponse(",
  line ("            new " ++ slot "resourceClass" ++ "($" ++ slot "modelVariable" ++ "),"),
  line ("            '" ++ slot "modelName" ++ " updated successfully'"),
  line "        );",
  line "    \x7d"]

/-- The method that deletes a record. -/
def destroyMethod : Text := List.flatten [
  line "    /**",
  line ("     * Remove the specified " ++ slot "modelVariable" ++ "."),
  line "     *",
  line "     * @response array\x7bsuccess: bool, message: string\x7d",
  line "     */",
  line (slot "destroyAttributes" ++ "    public function destroy(" ++ slot "modelClass" ++ " $" ++
    slot "modelVariable" ++ "): JsonResponse"),
  line "    \x7b",
  line ("        $" ++ slot "modelVariable" ++ "->delete();"),
  line "",
  line ("        return $this->deletedResponse('" ++ slot "modelName" ++
    " deleted successfully');"),
  line "    \x7d"]

/-- The class of a data object. -/
def dataClass : Text := List.flatten [
  line "<?php",
  line "",
  line ("namespace " ++ slot "namespace" ++ ";"),
  line "",
  line (slot "imports"),
  line "",
  line ("class " ++ slot "class" ++ " extends Data"),
  line "\x7b",
  line "    public function __construct(",
  line ("        " ++ slot "properties"),
  line "    ) \x7b\x7d",
  line "\x7d"]

/-- The stubs by file name. -/
def packaged : List (Text × Text) :=
  [("api-controller.class.stub", controllerClass),
   ("api-controller.method.store.stub", storeMethod),
   ("api-controller.method.update.stub", updateMethod),
   ("api-controller.method.destroy.stub", destroyMethod),
   ("data.class.stub", dataClass)]

end ApiScaffold.Stub
