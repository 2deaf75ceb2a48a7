import CrudBackend.Artifact.Source
import CrudBackend.OrderBy
import CrudBackend.Permission
import CrudBackend.Python.Literal

/-!
The generated files that depend on nothing but the generator: the mixins of stored records, the
models that schemas share, the base of all services, and the permission rule.
-/

namespace CrudBackend.Artifact

def defaultPageSize : Nat := 20

def maxPageSize : Nat := 200

def mixins : String := generated [
    "import uuid",
    "from datetime import datetime",
    "",
    "from sqlalchemy import Boolean, DateTime, String",
    "from sqlalchemy.orm import Mapped, mapped_column",
    "from sqlalchemy.sql import func",
    "",
    "",
    "class IdMixin:",
    "    id: Mapped[str] = mapped_column(String(64), primary_key=True, " ++
    "default=lambda: str(uuid.uuid4()), comment=\"ID\")",
    "",
    "",
    "class TimeMixin:",
    "    created_at: Mapped[datetime] = mapped_column(DateTime(timezone=False), " ++
    "server_default=func.now(), comment=\"created at\")",
    "    updated_at: Mapped[datetime] = mapped_column(DateTime(timezone=False), " ++
    "server_default=func.now(), onupdate=func.now(), comment=\"updated at\")",
    "",
    "",
    "class SoftDeleteMixin:",
    "    deleted: Mapped[bool] = mapped_column(Boolean, nullable=False, default=False, " ++
    "server_default=\"0\", comment=\"soft delete flag\")"]

def common : String := generated [
    "from datetime import datetime",
    "from typing import Generic, List, Optional, TypeVar",
    "",
    "from pydantic import BaseModel, ConfigDict, Field",
    "",
    "",
    "T = TypeVar(\"T\")",
    "",
    "",
    "class PageQuery(BaseModel):",
    "    page: int = Field(default=1, ge=1, description=\"page number, starting at 1\")",
    "    size: int = Field(default=" ++ toString defaultPageSize ++ ", ge=1, " ++
    "le=" ++ toString maxPageSize ++ ", description=\"page size\")",
    "    order_by: Optional[str] = Field(default=None, description=\"order by field, " ++
    "e.g. created_at desc\")",
    "",
    "",
    "class PageResult(BaseModel, Generic[T]):",
    "    total: int",
    "    items: List[T]",
    "",
    "",
    "class IdsReq(BaseModel):",
    "    ids: List[str]",
    "",
    "",
    "class BaseRead(BaseModel):",
    "    model_config = ConfigDict(from_attributes=True)",
    "",
    "    id: str",
    "    created_at: Optional[datetime] = None",
    "    updated_at: Optional[datetime] = None",
    "    deleted: Optional[bool] = None"]

def serviceBase : String := generated [
    "import re",
    "from typing import Any, Dict, FrozenSet, List, Optional, Tuple, Type",
    "",
    "from sqlalchemy import func, select",
    "from sqlalchemy.orm import Session",
    "",
    "",
    "# \"field\" or \"field asc|desc\"; anything else is ignored",
    "_ORDER_BY = re.compile(r\"" ++ OrderBy.pattern ++ "\", re.IGNORECASE)",
    "",
    "",
    "class BaseService:",
    "    def __init__(self, db: Session, ctx: Any):",
    "        self.db = db",
    "        self.ctx = ctx",
    "",
    "",
    "class ServiceExtension(BaseService):",
    "    \"\"\"Hand-written customization of one generated service.",
    "",
    "    Register the entity under `extensions` in the codegen config and implement",
    "    `\x7bClass\x7dServiceImpl(ServiceExtension)` in the sibling `\x7bstem\x7d_service_impl`",
    "    module. The generated `\x7bClass\x7dService` lists the extension ahead of the",
    "    generated CRUD base, so extension methods take precedence and can still",
    "    reach the base through `super()`.",
    "    \"\"\"",
    "",
    "",
    "class CRUDService(BaseService):",
    "    model: Type[Any] = None",
    "    soft_delete: bool = False",
    "    timestamps: bool = False",
    "    columns: FrozenSet[str] = frozenset()",
    "",
    "    def _base_stmt(self):",
    "        stmt = select(self.model)",
    "        if self.soft_delete:",
    "            stmt = stmt.where(self.model." ++ deletedColumn ++ ".is_(False))",
    "        return stmt",
    "",
    "    def _apply_filters(self, stmt, filters: Optional[Dict[str, Any]]):",
    "        for k, v in (filters or \x7b\x7d).items():",
    "            if v is None or k not in self.columns:",
    "                continue",
    "            stmt = stmt.where(getattr(self.model, k) == v)",
    "        return stmt",
    "",
    "    def _apply_order_by(self, stmt, order_by: Optional[str]):",
    "        m = _ORDER_BY.fullmatch((order_by or \"\").strip())",
    "        if m and m.group(1) in self.columns:",
    "            col = getattr(self.model, m.group(1))",
    "            if (m.group(2) or \"asc\").lower() == \"desc\":",
    "                return stmt.order_by(col.desc())",
    "            return stmt.order_by(col.asc())",
    "        if self.timestamps:",
    "            return stmt.order_by(self.model." ++ createdAtColumn ++ ".desc())",
    "        return stmt",
    "",
    "    def get_by_id(self, obj_id: str):",
    "        stmt = self._base_stmt().where(self.model." ++ idColumn ++ " == obj_id)",
    "        return self.db.scalars(stmt).first()",
    "",
    "    def create(self, data: Dict[str, Any]):",
    "        obj = self.model(**data)",
    "        self.db.add(obj)",
    "        self.db.commit()",
    "        self.db.refresh(obj)",
    "        return obj",
    "",
    "    def update(self, obj_id: str, data: Dict[str, Any]):",
    "        obj = self.get_by_id(obj_id)",
    "        if obj is None:",
    "            return None",
    "        for k, v in (data or \x7b\x7d).items():",
    "            if v is None or k == \"" ++ idColumn ++ "\" or k not in self.columns:",
    "                continue",
    "            setattr(obj, k, v)",
    "        self.db.commit()",
    "        self.db.refresh(obj)",
    "        return obj",
    "",
    "    def delete_many(self, ids: List[str]) -> int:",
    "        n = 0",
    "        for obj_id in ids or []:",
    "            obj = self.get_by_id(obj_id)",
    "            if obj is None:",
    "                continue",
    "            if self.soft_delete:",
    "                setattr(obj, \"" ++ deletedColumn ++ "\", True)",
    "            else:",
    "                self.db.delete(obj)",
    "            n += 1",
    "        self.db.commit()",
    "        return n",
    "",
    "    def list(self, filters: Optional[Dict[str, Any]] = None, " ++
    "order_by: Optional[str] = None) -> List[Any]:",
    "        stmt = self._apply_filters(self._base_stmt(), filters)",
    "        stmt = self._apply_order_by(stmt, order_by)",
    "        return list(self.db.scalars(stmt).all())",
    "",
    "    def paging(",
    "        self,",
    "        filters: Optional[Dict[str, Any]] = None,",
    "        page: int = 1,",
    "        size: int = " ++ toString defaultPageSize ++ ",",
    "        order_by: Optional[str] = None,",
    "    ) -> Tuple[int, List[Any]]:",
    "        stmt = self._apply_filters(self._base_stmt(), filters)",
    "        stmt = self._apply_order_by(stmt, order_by)",
    "        total = self.db.scalar(select(func.count()).select_from(stmt.subquery())) or 0",
    "        items = list(self.db.scalars(stmt.offset((page - 1) * size).limit(size)).all())",
    "        return int(total), items"]

def perm : String := generated [
    "from typing import Iterable",
    "",
    "ADMIN_ROLE = " ++ Python.quote Permission.adminRole,
    "WILDCARD = " ++ Python.quote Permission.wildcard,
    "SEPARATOR = " ++ Python.quote (String.singleton Permission.separator),
    "",
    "",
    "def perm_match(required: str, owned: Iterable[str]) -> bool:",
    "    \"\"\"Exact match, an owned `prefix:*` for any leading scopes, or `*`.\"\"\"",
    "    owned = set(owned or ())",
    "    if required in owned or WILDCARD in owned:",
    "        return True",
    "    parts = required.split(SEPARATOR)",
    "    for i in range(len(parts), 0, -1):",
    "        if SEPARATOR.join(parts[:i]) + SEPARATOR + WILDCARD in owned:",
    "            return True",
    "    return False",
    "",
    "",
    "def is_permitted(required: Iterable[str], roles: Iterable[str], " ++
    "perms: Iterable[str]) -> bool:",
    "    if ADMIN_ROLE in set(roles or ()):",
    "        return True",
    "    owned = set(perms or ())",
    "    return all(perm_match(p, owned) for p in required)"]

end CrudBackend.Artifact
